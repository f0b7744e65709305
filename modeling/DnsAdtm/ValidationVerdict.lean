/-
# `ValidationVerdict` — what the checks of a test say of a board that works

The checks look for payloads in a buffer, the filter admits packets.  On a board that works the two
come to the same: a packet comes back if the filter admits it, unless a payload that came back before
is still in the buffer and is taken for it.

    Verdict          what checks say of a filter, from its reading alone
    verdict_run      they say it of the board
    verdict_exact    which is what the filter says, where no payload is looked for twice
    loops_pass       a test passes, with the packets it is meant to have
    loops_exact      and fails with any others
-/
import DnsAdtm.ValidationBoard

namespace DnsAdtm

open Machine Sw

variable {g : Hw.Generics} {gReplyMac : BitVec 48} {f : Sw.Filter} {names : List Str} {q : Option (List (BitVec 8))}
  {cs cs' : List Check} {c : Packet} {b b' : Bench}

/-! ## The checks of a test -/

/-- A packet of a test: not for the board, and with all of its payload kept. -/
structure Sw.Packet.Fit (c : Packet) : Prop where
  mac : RandomMac c.dstmac
  pos : 1 ≤ c.udpPayload.length
  kept : c.udpPayload.length ≤ 128

/-- What the checks say of a filter, from its reading alone: a packet comes back if it is admitted, and
is missed if it is not and its payload is not the one that came back last. -/
inductive Verdict (g : Hw.Generics) (f : Sw.Filter) (names : List Str) :
    Option (List (BitVec 8)) → List Check → Option Message → Prop
  | nil {q : Option (List (BitVec 8))} : Verdict g f names q [] none
  | received {q : Option (List (BitVec 8))} {c : Packet} {cs : List Check} {msg : Option Message} : c.Fit →
      f.AdmitsPacket names c → Verdict g f names (some (response g f c.udpPayload)) cs msg →
      Verdict g f names q (.receive c (response g f c.udpPayload) :: cs) msg
  | missed {q : Option (List (BitVec 8))} {c : Packet} {cs : List Check} : c.Fit → ¬ f.AdmitsPacket names c →
      q ≠ some (response g f c.udpPayload) →
      Verdict g f names q (.receive c (response g f c.udpPayload) :: cs) (some .notRecv)
  | blocked {q : Option (List (BitVec 8))} {c : Packet} {cs : List Check} {msg : Option Message} (m : Message) : c.Fit →
      ¬ f.AdmitsPacket names c → q ≠ some c.udpPayload → Verdict g f names q cs msg →
      Verdict g f names q (.block c m :: cs) msg
  | leaked {q : Option (List (BitVec 8))} {c : Packet} {cs : List Check} (m : Message) : c.Fit → f.AdmitsPacket names c →
      response g f c.udpPayload = c.udpPayload → Verdict g f names q (.block c m :: cs) (some m)

theorem runChecks_cons {airs : Nat → Air} {j : Nat} {check : Check} (h : check.run g gReplyMac (airs j) b = some (none, b')) :
    runChecks g gReplyMac airs j (check :: cs) b = runChecks g gReplyMac airs (j + 1) cs b' := by
  rw [runChecks, h, Option.bind_eq_bind, Option.bind_some]
  exact if_pos rfl

theorem runChecks_append {airs : Nat → Air} {j : Nat} (h : runChecks g gReplyMac airs j cs b = some (none, b')) :
    runChecks g gReplyMac airs j (cs ++ cs') b = runChecks g gReplyMac airs (j + cs.length) cs' b' := by
  induction cs generalizing j b with
  | nil =>
      obtain rfl : b = b' := congrArg Prod.snd (Option.some.inj h)
      rfl
  | cons check cs ih =>
      cases hrun : check.run g gReplyMac (airs j) b with
      | none =>
          rw [runChecks, hrun, Option.bind_eq_bind, Option.bind_none] at h
          exact nomatch h
      | some r =>
          obtain ⟨msg, b₁⟩ := r
          cases msg with
          | some msg =>
              rw [runChecks, hrun, Option.bind_eq_bind, Option.bind_some] at h
              exact absurd h (by simp)
          | none =>
              rw [runChecks_cons hrun] at h
              rw [List.cons_append, runChecks_cons hrun, ih h, List.length_cons, Nat.add_right_comm, Nat.add_assoc]

theorem runChecks_fails {airs : Nat → Air} {j : Nat} {check : Check} {msg : Message}
    (h : check.run g gReplyMac (airs j) b = some (some msg, b')) :
    runChecks g gReplyMac airs j (check :: cs) b = some (some msg, b') := by
  rw [runChecks, h, Option.bind_eq_bind, Option.bind_some]
  exact if_neg (Option.some_ne_none msg)

theorem run_receive {air : Air} {payload : List (BitVec 8)} {seen : Bool}
    (h : c.look g gReplyMac air b payload = some (seen, b')) :
    (Check.receive c payload).run g gReplyMac air b = some (if seen then none else some .notRecv, b') := by
  rw [Check.run, h, Option.bind_eq_bind, Option.bind_some]

theorem run_block {air : Air} {msg : Message} {seen : Bool}
    (h : c.look g gReplyMac air b c.udpPayload = some (seen, b')) :
    (Check.block c msg).run g gReplyMac air b = some (if seen then some msg else none, b') := by
  rw [Check.run, h, Option.bind_eq_bind, Option.bind_some]

/-- The checks of a test say it of the board, one after the other. -/
theorem verdict_run (hg : Validated g) {airs : Nat → Air} (hairs : ∀ j, (airs j).Quiet) {msg : Option Message}
    (h : Verdict g f names q cs msg) (j : Nat) (hb : b.Testing f names q) :
    ∃ b', runChecks g gReplyMac airs j cs b = some (msg, b') ∧ b'.host.Ready := by
  induction h generalizing j b with
  | nil => exact ⟨b, rfl, hb.ready⟩
  | received hc hadmits _ ih =>
      obtain ⟨b₁, hlook, hb₁⟩ := look_admitted hg hb hc.mac hc.pos (hairs j) hadmits
      rw [runChecks_cons (run_receive hlook)]
      exact ih (j + 1) hb₁
  | missed hc hadmits hne =>
      obtain ⟨b₁, hlook, hb₁⟩ := look_blocked hg hb hc.mac hc.pos (hairs j).toOthers hadmits hne
      exact ⟨b₁, runChecks_fails (run_receive hlook), hb₁.ready⟩
  | blocked m hc hadmits hne _ ih =>
      obtain ⟨b₁, hlook, hb₁⟩ := look_blocked hg hb hc.mac hc.pos (hairs j).toOthers hadmits hne
      rw [runChecks_cons (run_block hlook)]
      exact ih (j + 1) hb₁
  | leaked m hc hadmits hpayload =>
      obtain ⟨b₁, hlook, hb₁⟩ := look_admitted hg hb hc.mac hc.pos (hairs j) hadmits
      rw [hpayload] at hlook
      exact ⟨b₁, runChecks_fails (run_block hlook), hb₁.ready⟩

/-- The checks of a test, behind its filter. -/
theorem config_run_checks (hg : Validated g) {airs : Nat → Air} (hairs : ∀ j, (airs j).Quiet) (hf : f.Tidy)
    (hnames : f.Names names) {msg : Option Message} (h : Verdict g f names none cs msg) (a a' : Addresses) (j : Nat)
    (hb : b.host.Ready) :
    ∃ b', runChecks g gReplyMac airs j (.config f a a' :: cs) b = some (msg, b') ∧ b'.host.Ready := by
  obtain ⟨b₁, hrun, hb₁⟩ := @config_run _ g gReplyMac f names b hg.toPaired hf hnames (hairs j).toOthers a a' hb
  rw [runChecks_cons hrun]
  exact verdict_run hg hairs h (j + 1) hb₁

/-- Such checks pass, from any state. -/
def Passes (g : Hw.Generics) (gReplyMac : BitVec 48) (cs : List Check) : Prop :=
  ∀ airs : Nat → Air, (∀ j, (airs j).Quiet) → ∀ j (b : Bench), b.host.Ready →
    ∃ b', runChecks g gReplyMac airs j cs b = some (none, b') ∧ b'.host.Ready

theorem Passes.append (h : Passes g gReplyMac cs) (h' : Passes g gReplyMac cs') : Passes g gReplyMac (cs ++ cs') := by
  intro airs hairs j b hb
  obtain ⟨b₁, hrun, hb₁⟩ := h airs hairs j b hb
  rw [runChecks_append hrun]
  exact h' airs hairs _ b₁ hb₁

theorem config_passes (hg : Validated g) (hf : f.Tidy) (hnames : f.Names names) (h : Verdict g f names none cs none)
    (a a' : Addresses) : Passes g gReplyMac (.config f a a' :: cs) :=
  fun _ hairs j _ hb => config_run_checks hg hairs hf hnames h a a' j hb

/-! ## The two loops -/

section Loops
variable {packets : List Packet}

theorem Verdict.receives {msg : Option Message} (hfit : ∀ c ∈ packets, c.Fit) (hadmits : ∀ c ∈ packets, f.AdmitsPacket names c)
    (h : Verdict g f names ((packets.map fun c => response g f c.udpPayload).getLast?.or q) cs msg) :
    Verdict g f names q ((packets.map fun c => .receive c (response g f c.udpPayload)) ++ cs) msg := by
  induction packets generalizing q with
  | nil => exact h
  | cons c packets ih =>
      refine .received (hfit c List.mem_cons_self) (hadmits c List.mem_cons_self) (ih ?_ ?_ ?_)
      · exact fun c' hc' => hfit c' (List.mem_cons_of_mem c hc')
      · exact fun c' hc' => hadmits c' (List.mem_cons_of_mem c hc')
      · rw [List.map_cons, List.getLast?_cons] at h
        generalize (packets.map fun c => response g f c.udpPayload).getLast? = last at h ⊢
        cases last with
        | none => exact h
        | some p => exact h

theorem Verdict.blocks {msg : Option Message} (hfit : ∀ c ∈ packets, c.Fit) (hadmits : ∀ c ∈ packets, ¬ f.AdmitsPacket names c)
    (hne : ∀ c ∈ packets, q ≠ some c.udpPayload) (m : Message) (h : Verdict g f names q cs msg) :
    Verdict g f names q (packets.map (.block · m) ++ cs) msg := by
  induction packets with
  | nil => exact h
  | cons c packets ih =>
      refine .blocked m (hfit c List.mem_cons_self) (hadmits c List.mem_cons_self) (hne c List.mem_cons_self) (ih ?_ ?_ ?_)
      · exact fun c' hc' => hfit c' (List.mem_cons_of_mem c hc')
      · exact fun c' hc' => hadmits c' (List.mem_cons_of_mem c hc')
      · exact fun c' hc' => hne c' (List.mem_cons_of_mem c hc')

end Loops

/-- A packet that is sent on as it is comes back as it is. -/
theorem response_plain (hf : f.replyType = 0) (hc : c.Fit) : response g f c.udpPayload = c.udpPayload := by
  rw [response, hf, if_neg (by decide), List.take_of_length_le hc.kept]

theorem map_returns (hf : f.replyType = 0) {packets : List Packet} (hfit : ∀ c ∈ packets, c.Fit) :
    packets.map returns = (packets.map fun c => .receive c (response g f c.udpPayload)) ∧
      (packets.map fun c => response g f c.udpPayload) = packets.map (·.udpPayload) := by
  constructor
  · refine List.map_congr_left fun c hc => ?_
    rw [returns, response_plain hf (hfit c hc)]
  · exact List.map_congr_left fun c hc => response_plain hf (hfit c hc)

/-- A filter for tests, which admits a packet by one of its lists. -/
structure Tested (f : Sw.Filter) (names : List Str) (bw : BitVec 1) (Hit : Packet → Prop) : Prop where
  tidy : f.Tidy
  named : f.Names names
  replyType : f.replyType = 0
  admits : ∀ c, f.AdmitsPacket names c ↔ AdmittedBy bw (Hit c)

theorem Tested.blacklist {Hit : Packet → Prop} (hf : Tested f names 0 Hit) (c : Packet) : f.AdmitsPacket names c ↔ ¬ Hit c := by
  rw [hf.admits, AdmittedBy]
  simp

theorem Tested.whitelist {Hit : Packet → Prop} (hf : Tested f names 1 Hit) (c : Packet) : f.AdmitsPacket names c ↔ Hit c := by
  rw [hf.admits, AdmittedBy]
  simp

/-- The payload that came back last is none of those that are to be blocked. -/
def Fresh (first second : List Packet) : Prop := ∀ c ∈ second, (first.map (·.udpPayload)).getLast? ≠ some c.udpPayload

/-- The packets of the first loop are not on the list, and those of the second are. -/
theorem loops_pass (hg : Validated g) {bw : BitVec 1} {Hit : Packet → Prop} (hf : Tested f names bw Hit)
    {first second : List Packet} (hfit : ∀ c ∈ first ++ second, c.Fit) (hfirst : ∀ c ∈ first, ¬ Hit c)
    (hsecond : ∀ c ∈ second, Hit c) (hfresh : bw = 0 → Fresh first second) (msg : Message) (a a' : Addresses) :
    Passes g gReplyMac (.config f a a' ::
      if bw = 0 then first.map returns ++ second.map (.block · msg) else first.map (.block · msg) ++ second.map returns) := by
  refine config_passes hg hf.tidy hf.named ?_ a a'
  have hfit₁ : ∀ c ∈ first, c.Fit := fun c hc => hfit c (List.mem_append_left second hc)
  have hfit₂ : ∀ c ∈ second, c.Fit := fun c hc => hfit c (List.mem_append_right first hc)
  obtain ⟨hreturns₁, hlast₁⟩ := @map_returns g f hf.replyType first hfit₁
  obtain ⟨hreturns₂, -⟩ := @map_returns g f hf.replyType second hfit₂
  rcases (by decide : ∀ bw : BitVec 1, bw = 0 ∨ bw = 1) bw with rfl | rfl
  · have hadmits := hf.blacklist
    rw [if_pos rfl, hreturns₁]
    refine .receives hfit₁ (fun c hc => (hadmits c).mpr (hfirst c hc)) ?_
    rw [hlast₁, Option.or_none, ← List.append_nil (second.map _)]
    refine .blocks hfit₂ (fun c hc h => (hadmits c).mp h (hsecond c hc)) ?_ msg .nil
    exact hfresh rfl
  · have hadmits := hf.whitelist
    rw [if_neg (by decide), hreturns₂, ← List.append_nil (second.map _)]
    refine .blocks hfit₁ (fun c hc h => hfirst c hc ((hadmits c).mp h)) (fun _ _ => (Option.some_ne_none _).symm) msg ?_
    exact .receives hfit₂ (fun c hc => (hadmits c).mpr (hsecond c hc)) .nil

/-! ## What a test says, exactly -/

/-- What is looked for is what the board sends for the packet, if it sends anything. -/
def Sw.Check.Sound (g : Hw.Generics) (f : Sw.Filter) : Check → Prop
  | .config _ _ _ => False
  | .receive c payload => c.Fit ∧ response g f c.udpPayload = payload
  | .block c _ => c.Fit ∧ response g f c.udpPayload = c.udpPayload

/-- What is looked for. -/
def Sw.Check.payload : Check → List (BitVec 8)
  | .config _ _ _ => []
  | .receive _ payload => payload
  | .block c _ => c.udpPayload

/-- The filter has the packet come back, or not, as the check does. -/
def Sw.Check.Agrees (f : Sw.Filter) (names : List Str) : Check → Prop
  | .config _ _ _ => True
  | .receive c _ => f.AdmitsPacket names c
  | .block c _ => ¬ f.AdmitsPacket names c

/-- Where no payload is looked for twice, none is taken for another. -/
theorem verdict_exact (hsound : ∀ check ∈ cs, check.Sound g f) (hapart : (cs.map Check.payload).Nodup)
    (hq : ∀ check ∈ cs, q ≠ some check.payload) :
    ∃ msg, Verdict g f names q cs msg ∧ (msg = none ↔ ∀ check ∈ cs, check.Agrees f names) := by
  induction cs generalizing q with
  | nil => exact ⟨none, .nil, by simp⟩
  | cons check cs ih =>
      rw [List.map_cons, List.nodup_cons] at hapart
      obtain ⟨hnew, hapart⟩ := hapart
      have hcheck := hsound check List.mem_cons_self
      have hne := hq check List.mem_cons_self
      have hrest {q' : Option (List (BitVec 8))} (hq' : q' = q ∨ q' = some check.payload) :
          ∃ msg, Verdict g f names q' cs msg ∧ (msg = none ↔ ∀ check ∈ cs, check.Agrees f names) := by
        refine ih (fun c hc => hsound c (List.mem_cons_of_mem check hc)) hapart fun c hc => ?_
        rcases hq' with rfl | rfl
        · exact hq c (List.mem_cons_of_mem check hc)
        · intro heq
          rw [Option.some.inj heq] at hnew
          exact hnew (List.mem_map_of_mem hc)
      cases check with
      | config => exact hcheck.elim
      | receive c payload =>
          obtain ⟨hfit, rfl⟩ := hcheck
          by_cases hadmits : f.AdmitsPacket names c
          · obtain ⟨msg, hverdict, hiff⟩ := hrest (.inr rfl)
            refine ⟨msg, .received hfit hadmits hverdict, ?_⟩
            rw [hiff, List.forall_mem_cons]
            exact ⟨fun h => ⟨hadmits, h⟩, And.right⟩
          · refine ⟨some .notRecv, .missed hfit hadmits hne, ?_⟩
            rw [List.forall_mem_cons]
            exact ⟨fun h => (nomatch h), fun h => absurd h.1 hadmits⟩
      | block c m =>
          obtain ⟨hfit, hpayload⟩ := hcheck
          by_cases hadmits : f.AdmitsPacket names c
          · refine ⟨some m, .leaked m hfit hadmits hpayload, ?_⟩
            rw [List.forall_mem_cons]
            exact ⟨fun h => (nomatch h), fun h => absurd hadmits h.1⟩
          · obtain ⟨msg, hverdict, hiff⟩ := hrest (.inl rfl)
            refine ⟨msg, .blocked m hfit hadmits hne hverdict, ?_⟩
            rw [hiff, List.forall_mem_cons]
            exact ⟨fun h => ⟨hadmits, h⟩, And.right⟩

section Exact
variable {first second : List Packet} (hf0 : f.replyType = 0) (hfirst : ∀ c ∈ first, c.Fit) (hsecond : ∀ c ∈ second, c.Fit)
  (msg : Message)
include hf0 hfirst hsecond

/-- What the loops look for is what the board sends. -/
theorem loops_sound : (∀ check ∈ first.map returns ++ second.map (.block · msg), check.Sound g f) ∧
    ∀ check ∈ first.map (.block · msg) ++ second.map returns, check.Sound g f := by
  have hreturns {packets : List Packet} (h : ∀ c ∈ packets, c.Fit) : ∀ check ∈ packets.map returns, check.Sound g f := by
    rw [List.forall_mem_map]
    exact fun c hc => ⟨h c hc, response_plain hf0 (h c hc)⟩
  have hblocks {packets : List Packet} (h : ∀ c ∈ packets, c.Fit) :
      ∀ check ∈ packets.map (Check.block · msg), check.Sound g f := by
    rw [List.forall_mem_map]
    exact fun c hc => ⟨h c hc, response_plain hf0 (h c hc)⟩
  exact ⟨List.forall_mem_append.mpr ⟨hreturns hfirst, hblocks hsecond⟩,
    List.forall_mem_append.mpr ⟨hblocks hfirst, hreturns hsecond⟩⟩

end Exact

/-- On a board that works a test says of its packets what they are. -/
theorem loops_exact (hg : Validated g) {bw : BitVec 1} {Hit : Packet → Prop} (hf : Tested f names bw Hit)
    {first second : List Packet} (hfit : ∀ c ∈ first ++ second, c.Fit)
    (hapart : ((first ++ second).map (·.udpPayload)).Nodup) (msg : Message) (a a' : Addresses)
    {airs : Nat → Air} (hairs : ∀ j, (airs j).Quiet) (j : Nat) (hb : b.host.Ready) :
    ∃ result b', runChecks g gReplyMac airs j (.config f a a' ::
        if bw = 0 then first.map returns ++ second.map (.block · msg)
        else first.map (.block · msg) ++ second.map returns) b = some (result, b') ∧ b'.host.Ready ∧
      (result = none ↔ (∀ c ∈ first, ¬ Hit c) ∧ ∀ c ∈ second, Hit c) := by
  obtain ⟨hfirst, hsecond⟩ := List.forall_mem_append.mp hfit
  obtain ⟨hplain, hwhite⟩ := @loops_sound g f _ _ hf.replyType hfirst hsecond msg
  rw [List.map_append] at hapart
  have hplainApart : ((first.map returns ++ second.map (Check.block · msg)).map Check.payload).Nodup := by
    rw [List.map_append, List.map_map, List.map_map]
    exact hapart
  have hwhiteApart : ((first.map (Check.block · msg) ++ second.map returns).map Check.payload).Nodup := by
    rw [List.map_append, List.map_map, List.map_map]
    exact hapart
  rcases (by decide : ∀ bw : BitVec 1, bw = 0 ∨ bw = 1) bw with rfl | rfl
  · have hadmits := hf.blacklist
    rw [if_pos rfl]
    obtain ⟨result, hverdict, hiff⟩ := @verdict_exact g f names none _ hplain hplainApart
      fun _ _ => (Option.some_ne_none _).symm
    obtain ⟨b', hrun, hb'⟩ := @config_run_checks g gReplyMac f names _ b hg airs hairs hf.tidy hf.named result hverdict a a' j hb
    refine ⟨result, b', hrun, hb', ?_⟩
    rw [hiff, List.forall_mem_append, List.forall_mem_map, List.forall_mem_map]
    exact and_congr (forall₂_congr fun c _ => hadmits c) (forall₂_congr fun c _ => (not_congr (hadmits c)).trans not_not)
  · have hadmits := hf.whitelist
    rw [if_neg (by decide)]
    obtain ⟨result, hverdict, hiff⟩ := @verdict_exact g f names none _ hwhite hwhiteApart
      fun _ _ => (Option.some_ne_none _).symm
    obtain ⟨b', hrun, hb'⟩ := @config_run_checks g gReplyMac f names _ b hg airs hairs hf.tidy hf.named result hverdict a a' j hb
    refine ⟨result, b', hrun, hb', ?_⟩
    rw [hiff, List.forall_mem_append, List.forall_mem_map, List.forall_mem_map]
    exact and_congr (forall₂_congr fun c _ => not_congr (hadmits c)) (forall₂_congr fun c _ => hadmits c)

end DnsAdtm
