/-
# `Hw.CoreinAdmin` — the admin route comes to an end

`Hw.CoreinAuth` says what the registers hold while an administrator's packet is
processed; here is that the processing ends.  The wait for the hash ends because the
hash unit's run does (`hash_until`, lifted into the entity by `Until.lift`), the update
after 29 periods (`update_until`).

    admin_run    an authentic packet read in `Idle` passes `HashAuth` and is in force
                 when `corein` is back in `Idle`
-/
import DnsAdtm.Hw.CoreinAuth

namespace DnsAdtm.Hw

open Machine

variable {g : Generics} {st : Corein} {f : Filter} {rd : RcvData}

/-- Not back in `Idle` yet. -/
def Corein.Away (st : Corein) : Prop := st.core.s.s ≠ .idle

/-- `HashAuth`, with the packet, its hash and the old filter. -/
structure AtAuth (g : Generics) (f : Filter) (rd : RcvData) (st : Corein) : Prop where
  s : st.core.s.s = .hashAuth
  data : st.core.rd = rd
  filter : st.core.f = f
  ahv : st.core.ahv = tagOf g rd

/-- The wait for the hash, once the unit has been started. -/
theorem wait_until (hs : st.core.s.s = .waitHash) (hrd : st.core.rd = rd) (hf : st.core.f = f)
    (hstart : st.core.siphashStart = false)
    (hhash : Until Siphasher.cycle Siphasher.Busy (Siphasher.Done (tagOf g rd)) st.hash) :
    Until (Corein.cycle g) Corein.Away (AtAuth g f rd) st := by
  have hlift := hhash.lift (Corein.cycle g) Corein.hash (fun st _ => st.hashIn g) (fun _ _ => rfl)
    (fun st => st.core.s.s = .waitHash ∧ st.core.rd = rd ∧ st.core.f = f ∧
      st.core.siphashStart = false) ?_ st rfl ⟨hs, hrd, hf, hstart⟩
  · refine (hlift.mono ?_ fun _ h => h).trans ?_
    · rintro st ⟨⟨hs, _⟩, _⟩
      exact fun hidle => by simp [hs] at hidle
    · rintro st ⟨⟨hs, hrd, hf, _⟩, hdone⟩
      refine .later (fun hidle => by simp [hs] at hidle) fun i => .here ?_
      have hcore : (st.cycle g i).core = { st.core.tick (st.rcvIn i) with s.s := .hashAuth } := by
        show rcv g st.core (st.rcvIn i) = _
        rw [rcv_waitHash hs]
        exact if_pos hdone.1
      exact ⟨by rw [hcore], by rw [hcore]; exact hrd, by rw [hcore]; exact hf,
        by rw [hcore]; exact hdone.2.2⟩
  · rintro st i ⟨hs, hrd, hf, _⟩ hbusy _
    have hcore : (st.cycle g i).core = { st.core.tick (st.rcvIn i) with s.s := .waitHash } := by
      show rcv g st.core (st.rcvIn i) = _
      rw [rcv_waitHash hs]
      exact if_neg (by simp [Corein.rcvIn, hbusy.1])
    exact ⟨by rw [hcore], by rw [hcore]; exact hrd, by rw [hcore]; exact hf, by rw [hcore]; rfl⟩

/-- From `CheckAdmin` to `HashAuth`. -/
theorem auth_until (hadmin : rd.dstMAC = g.adminMac) (hs : st.core.s.s = .checkAdmin)
    (hrd : st.core.rd = rd) (hf : st.core.f = f) (hrest : Resting st) :
    Until (Corein.cycle g) Corein.Away (AtAuth g f rd) st := by
  -- `CheckAdmin`
  refine .later (fun hidle => by simp [hs] at hidle) fun i => ?_
  have h₁ : (st.cycle g i).core =
      { st.core.tick (st.rcvIn i) with s.led := 0xf, s.s := .startHash, s.pc := 0 } := by
    show rcv g st.core (st.rcvIn i) = _
    rw [rcv_checkAdmin hs, if_pos (by rw [hrd, hadmin])]
  have hrest₁ : Resting (st.cycle g i) := ⟨(idle_stays hrest.hash hrest.start).1, by rw [h₁]; rfl⟩
  have hs₁ : (st.cycle g i).core.s.s = .startHash := by rw [h₁]
  have hrd₁ : (st.cycle g i).core.rd = rd := by rw [h₁]; exact hrd
  have hf₁ : (st.cycle g i).core.f = f := by rw [h₁]; exact hf
  generalize st.cycle g i = st₁ at hrest₁ hs₁ hrd₁ hf₁
  -- `StartHash`
  refine .later (fun hidle => by simp [hs₁] at hidle) fun i₁ => ?_
  have h₂ : (st₁.cycle g i₁).core =
      { st₁.core.tick (st₁.rcvIn i₁) with siphashStart := true, s.s := .waitHash } :=
    rcv_startHash hs₁
  obtain ⟨hidle₂, hlow₂, _⟩ := idle_stays hrest₁.hash (i := st₁.hashIn g) hrest₁.start
  have hhash₂ : (st₁.cycle g i₁).hash = st₁.hash.cycle (st₁.hashIn g) := rfl
  rw [← hhash₂] at hidle₂ hlow₂
  have hs₂ : (st₁.cycle g i₁).core.s.s = .waitHash := by rw [h₂]
  have hrd₂ : (st₁.cycle g i₁).core.rd = rd := by rw [h₂]; exact hrd₁
  have hf₂ : (st₁.cycle g i₁).core.f = f := by rw [h₂]; exact hf₁
  have hstart₂ : (st₁.cycle g i₁).core.siphashStart = true := by rw [h₂]
  generalize st₁.cycle g i₁ = st₂ at hidle₂ hlow₂ hs₂ hrd₂ hf₂ hstart₂
  -- the first period of `WaitHash`, in which the unit takes the start
  refine .later (fun hidle => by simp [hs₂] at hidle) fun i₂ => ?_
  have h₃ : (st₂.cycle g i₂).core = { st₂.core.tick (st₂.rcvIn i₂) with s.s := .waitHash } := by
    show rcv g st₂.core (st₂.rcvIn i₂) = _
    rw [rcv_waitHash hs₂]
    exact if_neg (by simp [Corein.rcvIn, hlow₂])
  refine wait_until (by rw [h₃]) (by rw [h₃]; exact hrd₂) (by rw [h₃]; exact hf₂)
    (by rw [h₃]; rfl) ?_
  have hgo := hash_until st₂.hash hidle₂ (st₂.hashIn g) hstart₂
  rw [show (st₂.hashIn g).inKey = g.adminKey from rfl,
    show (st₂.hashIn g).inData = downto st₂.core.rd.dnsPkt 959 0 from rfl, hrd₂] at hgo
  exact hgo

/-- The update is over, and `f` is the filter of the packet. -/
structure Updated (rd : RcvData) (st : Corein) : Prop where
  idle : st.core.s.s = .idle
  filter : st.core.f = Filter.decode rd.dnsPkt.getLsbD

/-- The update, by induction on the periods left. -/
theorem update_until {n : Nat} (hpos : st.core.s.updatePos = some n) (hn : n ≤ 28)
    (hrd : st.core.rd = rd) (hf : st.core.f = Filter.updated rd.dnsPkt f n) :
    Until (Corein.cycle g) Corein.Away (Updated rd) st := by
  obtain ⟨left, hleft⟩ : ∃ left, 28 = n + left := ⟨_, (Nat.add_sub_cancel' hn).symm⟩
  have hbusy : ∀ {n : Nat} {st : Corein}, st.core.s.updatePos = some n → st.Away := by
    intro n st hpos hidle
    simp [IState.updatePos, hidle] at hpos
  induction left generalizing n st with
  | zero =>
      refine .later (hbusy hpos) fun i => .here ?_
      have hupd := rcv_update (g := g) (i := st.rcvIn i) hpos
      rcases hupd.pos with ⟨hlt, _⟩ | ⟨hlast, hidle⟩
      · omega
      · refine ⟨hidle, ?_⟩
        show (rcv g st.core (st.rcvIn i)).f = _
        rw [hupd.filter, hf, hrd, hlast, ← Filter.updated_eq_decode rd.dnsPkt f]
        rfl
  | succ left ih =>
      refine .later (hbusy hpos) fun i => ?_
      have hupd := rcv_update (g := g) (i := st.rcvIn i) hpos
      rcases hupd.pos with ⟨hlt, hpos'⟩ | ⟨hlast, _⟩
      · refine ih hpos' hlt (hupd.data.trans hrd) ?_ (by omega)
        show (rcv g st.core (st.rcvIn i)).f = _
        rw [hupd.filter, hf, hrd]
        rfl
      · omega

/-- An authentic packet that an idle `corein` reads gets to the update. -/
theorem update_reached (g : Generics) (st : Corein) (inp : Nat → CoreinIn)
    (hidle : st.core.s.s = .idle) (hrest : Resting st) (hdv : (inp 0).elRcvDv = true)
    (hauth : Authentic g (inp 1).elRcvData) :
    let tr := trace (Corein.cycle g) st inp
    ∃ k, 0 < k ∧ (tr k).core.s.s = .hashAuth ∧
      (tr (k + 1)).core.s.s = .updateFilterSrcMACMeta ∧ (tr (k + 1)).core.rd = (inp 1).elRcvData ∧
      ∀ t, 0 < t → t ≤ k → (tr t).Away := by
  intro tr
  obtain ⟨rd, hrd⟩ : ∃ rd, rd = (inp 1).elRcvData := ⟨_, rfl⟩
  rw [← hrd] at hauth ⊢
  -- `Idle` and `Read`
  have h₁ : (tr 1).core = { st.core.tick (st.rcvIn (inp 0)) with s.s := .read } := rcv_idle hidle hdv
  have hs₁ : (tr 1).core.s.s = .read := by rw [h₁]
  have hrest₁ : Resting (tr 1) := ⟨(idle_stays hrest.hash hrest.start).1, by rw [h₁]; rfl⟩
  have hst₂ : tr 2 = (tr 1).cycle g (inp 1) := trace_succ ..
  have h₂ : (tr 2).core =
      { (tr 1).core.tick ((tr 1).rcvIn (inp 1)) with rd := rd, elRcvAck := true, s.s := .checkAdmin } := by
    rw [hst₂, hrd]
    exact rcv_read hs₁
  have hrest₂ : Resting (tr 2) := by
    refine ⟨?_, by rw [h₂]; rfl⟩
    rw [hst₂]
    exact (idle_stays hrest₁.hash hrest₁.start).1
  -- on to `HashAuth`
  obtain ⟨k, hk, haway⟩ := (auth_until (g := g) hauth.1 (by rw [h₂]) (by rw [h₂]) rfl
    hrest₂).exists_trace (fun t => inp (2 + t))
  simp only [tr, ← trace_add] at hk haway
  have hst₄ : tr (2 + k + 1) = (tr (2 + k)).cycle g (inp (2 + k)) := trace_succ ..
  have h₄ : (tr (2 + k + 1)).core =
      { (tr (2 + k)).core.tick ((tr (2 + k)).rcvIn (inp (2 + k))) with s.s := .updateFilterSrcMACMeta } := by
    rw [hst₄]
    show rcv g (tr (2 + k)).core _ = _
    rw [rcv_hashAuth hk.s, if_pos]
    rw [hk.ahv, hk.data, hauth.2]
    rfl
  refine ⟨2 + k, by omega, hk.s, by rw [h₄], by rw [h₄]; exact hk.data, ?_⟩
  intro t h0 ht
  rcases Nat.lt_or_ge t 2 with hlt | hge
  · obtain rfl : t = 1 := by omega
    rw [Corein.Away, hs₁]
    decide
  · rcases Nat.eq_or_lt_of_le ht with rfl | hlt'
    · rw [Corein.Away, hk.s]
      decide
    · have hbusy := haway (t - 2) (by omega)
      rwa [show 2 + (t - 2) = t by omega] at hbusy

/-- An authentic packet that an idle `corein` reads passes `HashAuth`, and is the filter
in force when `corein` is next idle. -/
theorem admin_run (g : Generics) (st : Corein) (inp : Nat → CoreinIn)
    (hidle : st.core.s.s = .idle) (hrest : Resting st) (hdv : (inp 0).elRcvDv = true)
    (hauth : Authentic g (inp 1).elRcvData) :
    ∃ k m, k < m ∧ (trace (Corein.cycle g) st inp k).core.s.s = .hashAuth ∧
      (trace (Corein.cycle g) st inp (k + 1)).core.s.s = .updateFilterSrcMACMeta ∧
      (trace (Corein.cycle g) st inp m).core.s.s = .idle ∧
      (∀ t, 0 < t → t < m → (trace (Corein.cycle g) st inp t).core.s.s ≠ .idle) ∧
      (trace (Corein.cycle g) st inp m).core.f =
        Filter.decode (inp 1).elRcvData.dnsPkt.getLsbD := by
  obtain ⟨k, h0, hk, hmeta, hrd, haway⟩ := update_reached g st inp hidle hrest hdv hauth
  have hpos : (trace (Corein.cycle g) st inp (k + 1)).core.s.updatePos = some 0 := by
    rw [IState.updatePos, hmeta]
  obtain ⟨m, hm, haway'⟩ := (update_until (g := g) hpos (Nat.zero_le _) hrd rfl).exists_trace
    (fun t => inp (k + 1 + t))
  simp only [← trace_add] at hm haway'
  refine ⟨k, k + 1 + m, by omega, hk, hmeta, hm.idle, ?_, hm.filter⟩
  intro t h0 ht
  rcases Nat.lt_or_ge k t with hlt | hle
  · have hbusy := haway' (t - (k + 1)) (by omega)
    rwa [show k + 1 + (t - (k + 1)) = t by omega] at hbusy
  · exact haway t h0 hle

end DnsAdtm.Hw
