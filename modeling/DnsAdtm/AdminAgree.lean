/-
# `AdminAgree` — the administrator's packet, from the software to the hardware

`write_to_admin_pkt` and `corein` agree on the 128 bytes: what the one writes for a filter
passes the other's `HashAuth` and becomes that filter (`write_to_admin_pkt_installs`).

    AdminPkt.authentic    the tag in the packet is the hash of the packet
    AdminPkt.decode       the payload of the packet is the filter
-/
import DnsAdtm.Hw.CoreinAdmin
import DnsAdtm.Sw.AdminCommands

namespace DnsAdtm

open Machine Sw

variable {g : Hw.Generics} {f : Sw.Filter} {bytes : List (BitVec 8)} {rd : Hw.RcvData}

theorem Sw.AdminPkt.authentic (h : AdminPkt f bytes) (hkey : g.adminKey = adminBufKey)
    (hmac : rd.dstMAC = g.adminMac) (hpkt : rd.dnsPkt = ofBytesLE 1024 bytes) : Hw.Authentic g rd := by
  refine ⟨hmac, ?_⟩
  have hpayload : (downto rd.dnsPkt 959 0 : BitVec 960) = field (stream f.toHw.segments) 0 960 := by
    rw [downto_eq_field]
    refine field_congr fun n hn => ?_
    rw [hpkt, getLsbD_ofBytesLE, decide_eq_true (by omega), Bool.true_and, h.payload _ (by omega)]
  rw [hpayload, hkey]
  apply BitVec.eq_of_getLsbD_eq
  intro n hn
  rw [getLsbD_downto, hpkt, getLsbD_ofBytesLE, decide_eq_true hn, decide_eq_true (by omega),
    Bool.true_and, Bool.true_and, h.tag n hn]

theorem Sw.AdminPkt.decode (h : AdminPkt f bytes) (hpkt : rd.dnsPkt = ofBytesLE 1024 bytes) :
    Hw.Filter.decode rd.dnsPkt.getLsbD = f.toHw := by
  rw [← Hw.Filter.decode_stream f.toHw_packable]
  refine Hw.Filter.decode_congr fun n hn => ?_
  rw [hpkt, getLsbD_ofBytesLE, decide_eq_true (by omega), Bool.true_and, h.payload n (by omega)]

/-- In every run from power-on, an idle `corein` that is offered the bytes in an
administrator's packet accepts the tag in `HashAuth` and is next idle with the filter. -/
def Installs (g : Hw.Generics) (bytes : List (BitVec 8)) (filter : Hw.Filter) : Prop :=
  ∀ (inp : Nat → Hw.CoreinIn) (n : Nat),
    (trace (Hw.Corein.cycle g) .init inp n).core.s.s = .idle → (inp n).elRcvDv = true →
    (inp (n + 1)).elRcvData.dstMAC = g.adminMac →
    (inp (n + 1)).elRcvData.dnsPkt = ofBytesLE 1024 bytes →
    ∃ k m, k < m ∧ (trace (Hw.Corein.cycle g) .init inp (n + k)).core.s.s = .hashAuth ∧
      (trace (Hw.Corein.cycle g) .init inp (n + k + 1)).core.s.s = .updateFilterSrcMACMeta ∧
      (trace (Hw.Corein.cycle g) .init inp (n + m)).core.s.s = .idle ∧
      (∀ t, 0 < t → t < m → (trace (Hw.Corein.cycle g) .init inp (n + t)).core.s.s ≠ .idle) ∧
      (trace (Hw.Corein.cycle g) .init inp (n + m)).core.f = filter

/-- An authentic packet installs the filter it carries. -/
theorem installs_of_authentic {filter : Hw.Filter}
    (h : ∀ rd : Hw.RcvData, rd.dstMAC = g.adminMac → rd.dnsPkt = ofBytesLE 1024 bytes →
      Hw.Authentic g rd ∧ Hw.Filter.decode rd.dnsPkt.getLsbD = filter) : Installs g bytes filter := by
  intro inp n hidle hdv hmac hdns
  obtain ⟨hauthentic, hdecode⟩ := h _ hmac hdns
  have hrest := (Hw.authInv_trace g inp n).resting (by rw [hidle]; nofun)
  obtain ⟨k, m, hkm, hauth, hupdate, hdone, hbusy, hf⟩ := Hw.admin_run g
    (trace (Hw.Corein.cycle g) .init inp n) (fun t => inp (n + t)) hidle hrest hdv hauthentic
  simp only [← trace_add] at hauth hupdate hdone hbusy hf
  exact ⟨k, m, hkm, hauth, hupdate, hdone, hbusy, hf.trans hdecode⟩

theorem Sw.AdminPkt.installs (h : AdminPkt f bytes) (hkey : g.adminKey = adminBufKey) :
    Installs g bytes f.toHw :=
  installs_of_authentic fun _ hmac hdns => ⟨h.authentic hkey hmac hdns, h.decode hdns⟩

/-- **Encoder and decoder agree.**  After any packets the process has written, the bytes
written for `f` are 128; and in every run from power-on, an idle `corein` with the same key
that is offered them in an administrator's packet accepts the tag in `HashAuth` and is next
idle with `f` for its filter. -/
theorem write_to_admin_pkt_installs (g : Hw.Generics) (hkey : g.adminKey = adminBufKey)
    (st : AdminBuf) (hst : st.Reachable) (f : Sw.Filter) :
    ∃ st', writeToAdminPkt f st = some st' ∧ st'.adminPkt.length = 128 ∧
      ∀ (inp : Nat → Hw.CoreinIn) (n : Nat),
        (trace (Hw.Corein.cycle g) .init inp n).core.s.s = .idle → (inp n).elRcvDv = true →
        (inp (n + 1)).elRcvData.dstMAC = g.adminMac →
        (inp (n + 1)).elRcvData.dnsPkt = ofBytesLE 1024 st'.adminPkt →
        ∃ k m, k < m ∧ (trace (Hw.Corein.cycle g) .init inp (n + k)).core.s.s = .hashAuth ∧
          (trace (Hw.Corein.cycle g) .init inp (n + k + 1)).core.s.s = .updateFilterSrcMACMeta ∧
          (trace (Hw.Corein.cycle g) .init inp (n + m)).core.s.s = .idle ∧
          (∀ t, 0 < t → t < m → (trace (Hw.Corein.cycle g) .init inp (n + t)).core.s.s ≠ .idle) ∧
          (trace (Hw.Corein.cycle g) .init inp (n + m)).core.f = f.toHw := by
  obtain ⟨st', hw, _, hpkt⟩ := writeToAdminPkt_spec f hst.fresh
  exact ⟨st', hw, hpkt.length, hpkt.installs hkey⟩

/-- An administrator's packet with `first` for two periods, and then one with `second`. -/
def offeredBoth (first second : List (BitVec 8)) (t : Nat) : Hw.CoreinIn where
  elRcvData :=
    { Hw.RcvData.zero with
      dstMAC := ({} : Hw.Generics).adminMac
      dnsPkt := ofBytesLE 1024 (if t ≤ 1 then first else second) }
  elRcvDv := true

/-- A process writes the configuration of the start of `main` behind an empty one, and a `corein`
at power-on is offered both packets. -/
theorem write_to_admin_pkt_installs_second : ∃ (inp : Nat → Hw.CoreinIn) (m₁ m₂ : Nat), m₁ < m₂ ∧
    (trace (Hw.Corein.cycle {}) .init inp m₁).core.f = Sw.Filter.empty.toHw ∧
    (trace (Hw.Corein.cycle {}) .init inp m₂).core.s.s = .idle ∧
    (trace (Hw.Corein.cycle {}) .init inp m₂).core.f = initialiseFpgaConfiguration.toHw := by
  obtain ⟨st₁, hw₁, _, hfirst⟩ := write_to_admin_pkt_installs {} rfl .init .start Sw.Filter.empty
  obtain ⟨st₂, _, _, hsecond⟩ := write_to_admin_pkt_installs {} rfl st₁ (.write _ .start hw₁)
    initialiseFpgaConfiguration
  obtain ⟨_, m₁, hlt₁, _, _, hidle₁, _, hf₁⟩ := hfirst (offeredBoth st₁.adminPkt st₂.adminPkt) 0 rfl rfl rfl rfl
  rw [Nat.zero_add] at hidle₁ hf₁
  have hbehind : ¬ m₁ + 1 ≤ 1 := by omega
  obtain ⟨_, m₂, hlt₂, _, _, hidle₂, _, hf₂⟩ := hsecond _ m₁ hidle₁ rfl rfl
    (congrArg (ofBytesLE 1024) (if_neg hbehind))
  exact ⟨_, m₁, m₁ + m₂, by omega, hf₁, hidle₂, hf₂⟩

end DnsAdtm
