/-
# `ValidationSuites` — what the suites say of a board that works

On such a board every suite passes, whatever the board and the command line had before.  It passes
with the packets that are drawn, as long as these are what the test takes them for: what is drawn
to be let through is on no list, and nothing that is to be blocked has the payload that came back
last, for that one is still in the buffer.

    Field.Lawful        a filter with one list admits by this list
    testFilter_exact    when a test of a list fails
    validation_passes   all suites
-/
import DnsAdtm.ValidationVerdict

namespace DnsAdtm

open Machine Sw

variable {g : Hw.Generics} {gReplyMac : BitVec 48} {f : Sw.Filter} {names : List Str} {c : Packet} {b : Bench}

/-! ## The lists -/

theorem empty_tidy : Sw.Filter.empty.Tidy where
  srcMAC := ⟨by decide, by decide⟩
  dstMAC := ⟨by decide, by decide⟩
  srcIP := ⟨by decide, by decide⟩
  dstIP := ⟨by decide, by decide⟩
  srcPort := ⟨by decide, by decide⟩
  dstPort := ⟨by decide, by decide⟩
  dns := ⟨by decide, by decide⟩
  endPtr := ⟨by decide, by decide⟩
  bytes := by decide

/-- A blacklist without items admits everything. -/
theorem empty_admits (c : Packet) : Sw.Filter.empty.AdmitsPacket [] c := by
  constructor <;> simp [AdmittedBy, Sw.Filter.empty]

theorem names_nil (h : f.dnsLength = 0) : f.Names [] where
  length := by rw [h]; rfl
  text _ hw := nomatch hw
  item _ hk := absurd hk (Nat.not_lt_zero _)

variable {α : Type}

/-- The other lists are empty, and let everything through. -/
def Sw.Field.Lawful (F : Sw.Field α) : Prop := ∀ (bw : BitVec 1) (length : BitVec 2) (list : Vector α filterDepth),
  BoundedList.Listed F.zero length.toNat list →
    Tested (F.set bw length list) [] bw fun c => F.get c ∈ list.toList.take length.toNat

/-- A list is the only one of its filter where what is tidy, and what it admits, is decided by it. -/
theorem Sw.Field.lawful {F : Sw.Field α}
    (hplain : ∀ bw length list, (F.set bw length list).dnsLength = 0 ∧ (F.set bw length list).replyType = 0)
    (htidy : ∀ bw length list, BoundedList.Listed F.zero length.toNat list → (F.set bw length list).Tidy)
    (hadmits : ∀ bw length list c, (F.set bw length list).AdmitsPacket [] c ↔
      AdmittedBy bw (F.get c ∈ list.toList.take length.toNat)) : F.Lawful := by
  intro bw length list hlist
  obtain ⟨hdns, hreply⟩ := hplain bw length list
  exact ⟨htidy bw length list hlist, names_nil hdns, hreply, hadmits bw length list⟩

theorem srcMACField_lawful : srcMACField.Lawful :=
  Field.lawful (fun _ _ _ => ⟨rfl, rfl⟩) (fun _ _ _ h => { empty_tidy with srcMAC := h })
    fun _ _ _ c => ⟨(·.srcMAC), fun h => { empty_admits c with srcMAC := h }⟩

theorem dstMACField_lawful : dstMACField.Lawful :=
  Field.lawful (fun _ _ _ => ⟨rfl, rfl⟩) (fun _ _ _ h => { empty_tidy with dstMAC := h })
    fun _ _ _ c => ⟨(·.dstMAC), fun h => { empty_admits c with dstMAC := h }⟩

theorem srcIPField_lawful : srcIPField.Lawful :=
  Field.lawful (fun _ _ _ => ⟨rfl, rfl⟩) (fun _ _ _ h => { empty_tidy with srcIP := h })
    fun _ _ _ c => ⟨(·.srcIP), fun h => { empty_admits c with srcIP := h }⟩

theorem dstIPField_lawful : dstIPField.Lawful :=
  Field.lawful (fun _ _ _ => ⟨rfl, rfl⟩) (fun _ _ _ h => { empty_tidy with dstIP := h })
    fun _ _ _ c => ⟨(·.dstIP), fun h => { empty_admits c with dstIP := h }⟩

theorem srcPortField_lawful : srcPortField.Lawful :=
  Field.lawful (fun _ _ _ => ⟨rfl, rfl⟩) (fun _ _ _ h => { empty_tidy with srcPort := h })
    fun _ _ _ c => ⟨(·.srcPort), fun h => { empty_admits c with srcPort := h }⟩

theorem dstPortField_lawful : dstPortField.Lawful :=
  Field.lawful (fun _ _ _ => ⟨rfl, rfl⟩) (fun _ _ _ h => { empty_tidy with dstPort := h })
    fun _ _ _ c => ⟨(·.dstPort), fun h => { empty_admits c with dstPort := h }⟩

/-- The items of a filter of a test. -/
theorem toNat_items {items : List α} (h : items.length ≤ 2) : (BitVec.ofNat 2 items.length).toNat = items.length := by
  rw [BitVec.toNat_ofNat]
  exact Nat.mod_eq_of_lt (by omega)

theorem take_items {items : List α} (h : items.length ≤ 2) (zero : α) :
    (Vector.ofFn fun i : Fin filterDepth => items.getD i zero).toList.take items.length = items := by
  have hdepth : filterDepth = 2 := rfl
  apply List.ext_getElem
  · rw [List.length_take, Vector.length_toList]
    omega
  · intro i h₁ h₂
    rw [List.getElem_take, Vector.getElem_toList, Vector.getElem_ofFn, List.getD_eq_getElem _ _ h₂]

theorem listed_items {items : List α} (h : items.length ≤ 2) (zero : α) :
    BoundedList.Listed zero items.length (Vector.ofFn fun i : Fin filterDepth => items.getD i zero) where
  le := h
  cleared i hi hle := by
    rw [Vector.getElem_ofFn]
    exact List.getD_eq_default _ _ hle

theorem Sw.Field.Lawful.tested {F : Sw.Field α} (hF : F.Lawful) (bw : BitVec 1) {items : List α} (h : items.length ≤ 2) :
    Tested (F.filter bw items) [] bw fun c => F.get c ∈ items := by
  have hlist := listed_items h F.zero
  rw [← toNat_items h] at hlist
  have htested := hF bw _ _ hlist
  rw [toNat_items h, take_items h] at htested
  exact htested

section Lists
variable {F : Sw.Field α} {compared : Packet → α}

theorem testFilter_passes (hg : Validated g) (hF : F.Lawful) {bw : BitVec 1} {n : Nat} (hn : n ≤ 2) {d : ListDraw α}
    (h : d.Possible F compared n) (hclear : ∀ c ∈ d.first, F.get c ∉ d.items) (hfresh : bw = 0 → Fresh d.first d.second)
    (msg : Message) : Passes g gReplyMac (testFilter F bw msg d) := by
  have hfit : ∀ c ∈ d.first ++ d.second, c.Fit := by
    intro c hc
    obtain ⟨hmac, hlen⟩ := h.packets c hc
    exact ⟨hmac, by omega, by omega⟩
  exact loops_pass hg (hF.tested bw (by rw [h.items]; exact hn)) hfit hclear h.second.2 hfresh msg d.a d.a'

/-- **When a test of a list fails on a board that works.**  With any items and packets at all, the
payloads all different: exactly if a packet of its first loop is on the list, or one of its second is
not.  So `test_mac_dstmac_filter_one` fails when it happens to draw the address on its list. -/
theorem testFilter_exact (hg : Validated g) (hF : F.Lawful) (bw : BitVec 1) {d : ListDraw α} (hitems : d.items.length ≤ 2)
    (hfit : ∀ c ∈ d.first ++ d.second, c.Fit) (hapart : ((d.first ++ d.second).map (·.udpPayload)).Nodup) (msg : Message)
    {airs : Nat → Air} (hairs : ∀ j, (airs j).Quiet) (j : Nat) (hb : b.host.Ready) :
    ∃ result b', runChecks g gReplyMac airs j (testFilter F bw msg d) b = some (result, b') ∧
      b'.host.Ready ∧
      (result = none ↔ (∀ c ∈ d.first, F.get c ∉ d.items) ∧ ∀ c ∈ d.second, F.get c ∈ d.items) :=
  loops_exact hg (hF.tested bw hitems) hfit hapart msg d.a d.a' hairs j hb

/-- In the tests with a blacklist. -/
structure Sw.ListDraws.Fresh (ds : ListDraws α) : Prop where
  one : DnsAdtm.Fresh ds.one.first ds.one.second
  two : DnsAdtm.Fresh ds.two.first ds.two.second

theorem fresh_nil (first : List Packet) {second : List Packet} (h : second.length = 0) : Fresh first second := by
  rw [List.eq_nil_of_length_eq_zero h]
  exact fun _ hc => nomatch hc

theorem testFilters_pass (hg : Validated g) (hF : F.Lawful) {ds : ListDraws α} (h : ds.Possible F compared)
    (hone : ∀ c ∈ ds.one.first, F.get c ∉ ds.one.items) (hfresh : ds.Fresh) (msg : Message) :
    Passes g gReplyMac (testFilters F msg ds) := by
  have hwhite {d : ListDraw α} : (1 : BitVec 1) = 0 → DnsAdtm.Fresh d.first d.second := fun h => absurd h (by decide)
  have hnil {d : ListDraw α} (h : d.Possible F F.get 0) : (0 : BitVec 1) = 0 → DnsAdtm.Fresh d.first d.second :=
    fun _ => fresh_nil _ h.second.1
  rw [testFilters]
  refine .append (.append (.append (.append (.append ?_ ?_) ?_) ?_) ?_) ?_
  · exact testFilter_passes hg hF (Nat.zero_le 2) h.empty h.empty.first.2 (hnil h.empty) _
  · exact testFilter_passes hg hF (Nat.le_succ 1) h.one hone (fun _ => hfresh.one) _
  · exact testFilter_passes hg hF (Nat.le_refl 2) h.two h.two.first.2 (fun _ => hfresh.two) _
  · exact testFilter_passes hg hF (Nat.zero_le 2) h.emptyWhite h.emptyWhite.first.2 hwhite _
  · exact testFilter_passes hg hF (Nat.le_succ 1) h.oneWhite h.oneWhite.first.2 hwhite _
  · exact testFilter_passes hg hF (Nat.le_refl 2) h.twoWhite h.twoWhite.first.2 hwhite _

end Lists

/-! ## The names -/

/-- Names that a filter has room for. -/
structure NameList (names : List Str) : Prop where
  length : names.length ≤ 2
  text : ∀ w ∈ names, 1 ≤ w.length ∧ w.length ≤ 16 ∧ ∀ c ∈ w, c ≠ 0

theorem NameList.getD_le (h : NameList names) (i : Nat) : (names.getD i []).length ≤ 16 := by
  rcases Nat.lt_or_ge i names.length with hlt | hge
  · rw [List.getD_eq_getElem _ _ hlt]
    exact (h.text _ (List.getElem_mem hlt)).2.1
  · rw [List.getD_eq_default _ _ hge]
    exact Nat.zero_le 16

theorem copyBytes_nil (item : DnsFilterItem) : copyBytes item [] = item := by
  apply Vector.ext
  intro i hi
  rw [copyBytes, Vector.getElem_ofFn]
  rfl

theorem dnsFilter_tested (h : NameList names) (bw : BitVec 1) :
    Tested (dnsFilter bw names) names bw fun c => ∃ w ∈ names, List.IsInfix w (c.udpPayload.take 128) := by
  have hlen := toNat_items h.length
  have hdns : BoundedList.Listed (.replicate 16 0) (BitVec.ofNat 2 names.length).toNat (dnsFilter bw names).dnsList := by
    rw [hlen]
    refine ⟨h.length, fun i hi hle => ?_⟩
    rw [dnsFilter, Vector.getElem_ofFn, List.getD_eq_default _ _ hle]
    exact copyBytes_nil _
  have hptrs : BoundedList.Listed 0 (BitVec.ofNat 2 names.length).toNat (dnsFilter bw names).dnsItemEndPtr := by
    rw [hlen]
    refine ⟨h.length, fun i hi hle => ?_⟩
    rw [dnsFilter, Vector.getElem_ofFn, List.getD_eq_default _ _ hle]
    rfl
  have hbytes : ∀ i (hi : i < filterDepth), WholeBytes (dnsFilter bw names).dnsItemEndPtr[i] := by
    intro i hi
    rw [dnsFilter, Vector.getElem_ofFn, Nat.mul_comm]
    exact endPtr_bytes (h.getD_le i)
  refine ⟨{ empty_tidy with dns := hdns, endPtr := hptrs, bytes := hbytes }, ⟨hlen.symm, h.text, ?_⟩, rfl, fun c =>
    ⟨(·.dns), fun h => { empty_admits c with dns := h }⟩⟩
  intro k hk hk2
  have hshort := h.getD_le k
  rw [dnsFilter, Vector.getElem_ofFn, Vector.getElem_ofFn]
  rw [List.getD_eq_getElem _ _ hk] at hshort ⊢
  refine ⟨rfl, ?_⟩
  rw [BitVec.toNat_ofNat, Nat.mod_eq_of_lt (by omega)]

theorem testDns_passes (hg : Validated g) (hn : NameList names) (bw : BitVec 1) {P Q : Str → Prop} {d : DnsDraw}
    (h : d.Possible P Q) (hP : ∀ p, P p → 1 ≤ p.length ∧ p.length ≤ 128)
    (hQ : ∀ p, Q p → (1 ≤ p.length ∧ p.length ≤ 128) ∧ ∃ w ∈ names, List.IsInfix w p)
    (hclear : ∀ c ∈ d.first, ∀ w ∈ names, ¬ List.IsInfix w c.udpPayload) : Passes g gReplyMac (testDns bw names d) := by
  have hfit : ∀ c ∈ d.first ++ d.second, c.Fit := by
    intro c hc
    have hlen : 1 ≤ c.udpPayload.length ∧ c.udpPayload.length ≤ 128 := by
      rcases List.mem_append.mp hc with hc | hc
      · exact hP _ (h.first.2 c hc)
      · exact (hQ _ (h.second.2 c hc)).1
    exact ⟨h.packets c hc, hlen.1, hlen.2⟩
  refine loops_pass hg (dnsFilter_tested hn bw) hfit ?_ ?_ ?_ .notBlock d.a d.a'
  · rintro c hc ⟨w, hw, hinfix⟩
    rw [List.take_of_length_le (hfit c (List.mem_append_left _ hc)).kept] at hinfix
    exact hclear c hc w hw hinfix
  · intro c hc
    rw [List.take_of_length_le (hfit c (List.mem_append_right _ hc)).kept]
    exact (hQ _ (h.second.2 c hc)).2
  · -- what came back has no name in it
    intro _ c hc hlast
    obtain ⟨w, hw, hinfix⟩ := (hQ _ (h.second.2 c hc)).2
    obtain ⟨c', hc', heq⟩ := List.mem_map.mp (List.mem_of_getLast? hlast)
    exact hclear c' hc' w hw (heq ▸ hinfix)

theorem Sw.Contains.isInfix {w payload : Str} (h : Contains w payload) : List.IsInfix w payload := by
  obtain ⟨before, behind, heq, -, -⟩ := h
  exact ⟨before, behind, heq.symm⟩

theorem Sw.Contains.length {w payload : Str} (h : Contains w payload) : payload.length = 20 := by
  obtain ⟨before, behind, -, hlen, -⟩ := h
  exact hlen

theorem Sw.Misspelt.length {w payload : Str} (h : Misspelt w payload) : payload.length = 20 := by
  obtain ⟨j, -, hj⟩ := h
  exact hj.length

theorem no_names : NameList [] := ⟨Nat.zero_le 2, fun _ hw => nomatch hw⟩

theorem apple_names : NameList [apple] := ⟨by decide, by decide⟩

theorem two_names : NameList twoNames := ⟨by decide, by decide⟩

/-- What is drawn around a misspelt name spells none either. -/
def Sw.DnsDraw.Clear (d : DnsDraw) (names : List Str) : Prop := ∀ c ∈ d.first, ∀ w ∈ names, ¬ List.IsInfix w c.udpPayload

structure Sw.DnsDraws.Clear (ds : DnsDraws) : Prop where
  one : ds.one.Clear [apple]
  two : ds.two.Clear twoNames
  oneWhite : ds.oneWhite.Clear [apple]
  twoWhite : ds.twoWhite.Clear twoNames

theorem testDnsFilters_pass (hg : Validated g) {ds : DnsDraws} (h : ds.Possible) (hclear : ds.Clear) :
    Passes g gReplyMac (testDnsFilters ds) := by
  have hempty (bw : BitVec 1) {d : DnsDraw} (h : d.Possible (·.length = 8) fun _ => False) :
      Passes g gReplyMac (testDns bw [] d) :=
    testDns_passes hg no_names bw h (fun p hp => by omega) (fun _ hp => hp.elim)
      fun _ _ _ hw => nomatch hw
  have hone (bw : BitVec 1) {d : DnsDraw} (h : d.Possible (Misspelt apple) (Contains apple)) (hclear : d.Clear [apple]) :
      Passes g gReplyMac (testDns bw [apple] d) := by
    refine testDns_passes hg apple_names bw h (fun p hp => ?_) (fun p hp => ?_) hclear
    · rw [hp.length]
      decide
    · rw [hp.length]
      exact ⟨by decide, apple, List.mem_singleton_self apple, hp.isInfix⟩
  have htwo (bw : BitVec 1) {d : DnsDraw} (h : d.Possible (Misspelt (str "zitongli.mepaloa")) (· ∈ twoNames))
      (hclear : d.Clear twoNames) : Passes g gReplyMac (testDns bw twoNames d) := by
    refine testDns_passes hg two_names bw h (fun p hp => ?_) (fun p hp => ?_) hclear
    · rw [hp.length]
      decide
    · obtain ⟨hpos, hle, -⟩ := two_names.text p hp
      exact ⟨⟨hpos, by omega⟩, p, hp, List.infix_refl p⟩
  rw [testDnsFilters]
  refine .append (.append (.append (.append (.append ?_ ?_) ?_) ?_) ?_) ?_
  · exact hempty 0 h.empty
  · exact hone 0 h.one hclear.one
  · exact htwo 0 h.two hclear.two
  · exact hempty 1 h.emptyWhite
  · exact hone 1 h.oneWhite hclear.oneWhite
  · exact htwo 1 h.twoWhite hclear.twoWhite

/-! ## The reply -/

theorem response_dns (hg : Validated g) (hf : f.replyType = 1) (hc : c.Fit) :
    response g f c.udpPayload = expectDnsResponse c.udpPayload := by
  rw [response, hf, if_pos (by decide), List.take_of_length_le hc.kept, Hw.dnsReplyBytes, hg.rcode, expectDnsResponse]
  rfl

theorem testReply_passes (hg : Validated g) {d : ReplyDraw} (h : d.Possible) : Passes g gReplyMac (testReply d) := by
  have hfit : ∀ c ∈ d.packets, c.Fit := by
    intro c hc
    obtain ⟨hmac, hlen⟩ := h.packets.2 c hc
    exact ⟨hmac, by omega, by omega⟩
  obtain ⟨f, hf⟩ : ∃ f : Sw.Filter, f = { Sw.Filter.empty with replyType := 1 } := ⟨_, rfl⟩
  have htidy : f.Tidy := by
    rw [hf]
    exact { empty_tidy with }
  have hadmits (c : Packet) : f.AdmitsPacket [] c := by
    rw [hf]
    exact { empty_admits c with }
  have hresponse : d.packets.map (fun c => Check.receive c (expectDnsResponse c.udpPayload)) =
      d.packets.map fun c => .receive c (response g f c.udpPayload) := by
    refine List.map_congr_left fun c hc => ?_
    rw [response_dns hg (by rw [hf]) (hfit c hc)]
  rw [testReply, hresponse, ← hf, ← List.append_nil (d.packets.map _)]
  exact config_passes hg htidy (names_nil (by rw [hf]; rfl)) (.receives hfit (fun c _ => hadmits c) .nil) d.a d.a'

/-! ## All of them -/

/-- The draws are what the tests take them for. -/
structure Sw.Draws.Lucky (ds : Draws) : Prop where
  srcmac : ds.srcmac.Fresh
  dstmac : ds.dstmac.Fresh
  /-- `test_mac_dstmac_filter_one` does not see to it -/
  dstmacOne : ∀ c ∈ ds.dstmac.one.first, c.dstmac ∉ ds.dstmac.one.items
  srcip : ds.srcip.Fresh
  dstip : ds.dstip.Fresh
  srcport : ds.srcport.Fresh
  dstport : ds.dstport.Fresh
  dns : ds.dns.Clear

theorem Sw.Draws.suites_pass (hg : Validated g) {ds : Draws} (h : ds.Possible) (hlucky : ds.Lucky) :
    ∀ cs ∈ ds.suites, Passes g gReplyMac cs := by
  intro cs hcs
  simp only [Draws.suites, List.mem_cons, List.not_mem_nil, or_false] at hcs
  rcases hcs with rfl | rfl | rfl | rfl | rfl | rfl | rfl | rfl
  · exact testFilters_pass hg srcMACField_lawful h.srcmac h.srcmac.one.first.2 hlucky.srcmac _
  · exact testFilters_pass hg dstMACField_lawful h.dstmac hlucky.dstmacOne hlucky.dstmac _
  · exact testFilters_pass hg srcIPField_lawful h.srcip h.srcip.one.first.2 hlucky.srcip _
  · exact testFilters_pass hg dstIPField_lawful h.dstip h.dstip.one.first.2 hlucky.dstip _
  · exact testFilters_pass hg srcPortField_lawful h.srcport h.srcport.one.first.2 hlucky.srcport _
  · exact testFilters_pass hg dstPortField_lawful h.dstport h.dstport.one.first.2 hlucky.dstport _
  · exact testDnsFilters_pass hg h.dns hlucky.dns
  · exact testReply_passes hg h.reply

theorem runSuites_pass {airs : Nat → Nat → Air} (hairs : ∀ i j, (airs i j).Quiet) {suites : List (List Check)}
    (h : ∀ cs ∈ suites, Passes g gReplyMac cs) (i : Nat) (hb : b.host.Ready) :
    ∃ b', runSuites g gReplyMac airs i suites b = some (List.replicate suites.length none, b') ∧ b'.host.Ready := by
  induction suites generalizing i b with
  | nil => exact ⟨b, rfl, hb⟩
  | cons cs suites ih =>
      obtain ⟨b₁, hrun, hb₁⟩ := h cs List.mem_cons_self (airs i) (hairs i) 0 b hb
      obtain ⟨b', hrest, hb'⟩ := ih (fun cs' hcs' => h cs' (List.mem_cons_of_mem cs hcs')) (i + 1) hb₁
      refine ⟨b', ?_, hb'⟩
      rw [runSuites, hrun, Option.bind_eq_bind, Option.bind_some]
      dsimp only
      rw [hrest]
      rfl

theorem flatten_passes {suites : List (List Check)} (h : ∀ cs ∈ suites, Passes g gReplyMac cs) :
    Passes g gReplyMac suites.flatten := by
  induction suites with
  | nil => exact fun _ _ _ b hb => ⟨b, rfl, hb⟩
  | cons cs suites ih =>
      rw [List.flatten_cons]
      exact (h cs List.mem_cons_self).append (ih fun cs' hcs' => h cs' (List.mem_cons_of_mem cs hcs'))

/-- **What the validation says of a board that works.**  From whatever state of the board and of the
command line, with whatever frames of others on the line, as long as the board's are taken within a
hundred turns: of the suites that a command runs (`com_test_all` all eight), none fails, and the next
command finds what this one found. -/
theorem validation_passes (hg : Validated g) {ds : Draws} (h : ds.Possible) (hlucky : ds.Lucky) {airs : Nat → Nat → Air}
    (hairs : ∀ i j, (airs i j).Quiet) (hb : b.host.Ready) {suites : List (List Check)}
    (hsuites : suites ⊆ ds.suites) :
    (∃ b', runSuites g gReplyMac airs 0 suites b = some (.replicate suites.length none, b') ∧ b'.host.Ready) ∧
      ∃ b', firstFail g gReplyMac (airs 0) suites b = some (none, b') ∧ b'.host.Ready := by
  have hpass : ∀ cs ∈ suites, Passes g gReplyMac cs := fun cs hcs => ds.suites_pass hg h hlucky cs (hsuites hcs)
  exact ⟨runSuites_pass hairs hpass 0 hb, flatten_passes hpass (airs 0) (hairs 0) 0 b hb⟩

/-! ### A draw -/

theorem sample_short (payload : Str) : (payload.take 1472).length ≤ 1472 := List.length_take_le 1472 payload

/-- A packet with one byte in all its addresses. -/
def samplePacket (n : BitVec 8) (payload : Str) : Packet :=
  ⟨.replicate 6 n, .replicate 6 n, .replicate 4 n, .replicate 4 n, n.setWidth 16, n.setWidth 16, payload.take 1472,
    sample_short payload⟩

def sampleAddresses : Addresses := ⟨.replicate 6 0, .replicate 4 0, .replicate 4 0, 0, 0⟩

def sampleDraw (item : BitVec 8 → α) (items : List (BitVec 8)) : ListDraw α :=
  ⟨sampleAddresses, sampleAddresses, items.map item, .replicate 10 (samplePacket 0 (.replicate 8 0)),
    .replicate (if items.length = 0 then 0 else 10) (samplePacket 1 (.replicate 8 1))⟩

def sampleDraws (item : BitVec 8 → α) : ListDraws α :=
  ⟨sampleDraw item [], sampleDraw item [1], sampleDraw item [1, 2], sampleDraw item [], sampleDraw item [1],
    sampleDraw item [1, 2]⟩

theorem sampleDraw_possible {F : Sw.Field α} {compared : Packet → α} {item : BitVec 8 → α}
    (hget : ∀ n p, F.get (samplePacket n p) = item n) (hcompared : ∀ n p, compared (samplePacket n p) = item n)
    {items : List (BitVec 8)} (hitems : items = [] ∨ 1 ∈ items) (hne : ∀ n ∈ items, item n ≠ item 0) :
    (sampleDraw item items).Possible F compared items.length where
  items := List.length_map item
  packets c hc := by
    rcases List.mem_append.mp hc with hc | hc
    · rw [List.eq_of_mem_replicate hc]
      decide
    · rw [List.eq_of_mem_replicate hc]
      decide
  first := by
    refine ⟨List.length_replicate, fun c hc hmem => ?_⟩
    rw [List.eq_of_mem_replicate hc, hcompared] at hmem
    obtain ⟨n, hn, heq⟩ := List.mem_map.mp hmem
    exact hne n hn heq
  second := by
    refine ⟨List.length_replicate, fun c hc => ?_⟩
    rw [List.eq_of_mem_replicate hc, hget]
    rcases hitems with rfl | hmem
    · exact nomatch hc
    · exact List.mem_map_of_mem hmem

theorem sampleDraw_fresh (item : BitVec 8 → α) (items : List (BitVec 8)) :
    Fresh (sampleDraw item items).first (sampleDraw item items).second := by
  intro c hc
  rw [List.eq_of_mem_replicate hc]
  show ((List.replicate 10 (samplePacket 0 (.replicate 8 0))).map (·.udpPayload)).getLast? ≠ _
  decide

theorem sampleDraws_possible {F : Sw.Field α} {compared : Packet → α} {item : BitVec 8 → α}
    (hget : ∀ n p, F.get (samplePacket n p) = item n) (hcompared : ∀ n p, compared (samplePacket n p) = item n)
    (hne : ∀ n ∈ [(1 : BitVec 8), 2], item n ≠ item 0) : (sampleDraws item).Possible F compared where
  empty := sampleDraw_possible hget hget (.inl rfl) (fun _ hn => nomatch hn)
  one := sampleDraw_possible hget hcompared (.inr (by decide)) (fun n hn => hne n (List.mem_of_mem_take (i := 1) hn))
  two := sampleDraw_possible hget hget (.inr (by decide)) hne
  emptyWhite := sampleDraw_possible hget hget (.inl rfl) (fun _ hn => nomatch hn)
  oneWhite := sampleDraw_possible hget hget (.inr (by decide)) (fun n hn => hne n (List.mem_of_mem_take (i := 1) hn))
  twoWhite := sampleDraw_possible hget hget (.inr (by decide)) hne

def sampleDns (x : Str) (second : List Str) : DnsDraw :=
  ⟨sampleAddresses, sampleAddresses, .replicate 10 (samplePacket 0 x), second.map (samplePacket 0)⟩

/-- `apple.com` and `zitongli.mepaloa` with one letter changed, and as they are. -/
def sampleNames : DnsDraws :=
  let empty := sampleDns (.replicate 8 0) []
  let one := sampleDns (str "bpple.com" ++ .replicate 11 0) [str "apple.com" ++ .replicate 11 0]
  let two := sampleDns (str "zjtongli.mepaloa" ++ .replicate 4 0) twoNames
  ⟨empty, one, two, empty, one, two⟩

theorem sampleDns_possible {P Q : Str → Prop} {x : Str} (hx : P (x.take 1472)) {second : List Str}
    (hsecond : second.length ≤ 10) (hy : ∀ y ∈ second, Q (y.take 1472)) : (sampleDns x second).Possible P Q where
  packets c hc := by
    rcases List.mem_append.mp hc with hc | hc
    · rw [List.eq_of_mem_replicate hc]
      show RandomMac (.replicate 6 0)
      decide
    · obtain ⟨y, -, rfl⟩ := List.mem_map.mp hc
      show RandomMac (.replicate 6 0)
      decide
  first := by
    refine ⟨List.length_replicate, fun c hc => ?_⟩
    rw [List.eq_of_mem_replicate hc]
    exact hx
  second := by
    refine ⟨(List.length_map _).trans_le hsecond, fun c hc => ?_⟩
    obtain ⟨y, hmem, rfl⟩ := List.mem_map.mp hc
    exact hy y hmem

theorem sampleDns_clear {x : Str} {second : List Str} (h : ∀ w ∈ names, ¬ List.IsInfix w (x.take 1472)) :
    (sampleDns x second).Clear names := by
  intro c hc
  rw [List.eq_of_mem_replicate hc]
  exact h

theorem sampleNames_possible : sampleNames.Possible := by
  have hempty : (sampleDns (.replicate 8 0) []).Possible (·.length = 8) fun _ => False :=
    sampleDns_possible (by decide) (by decide) fun _ hy => nomatch hy
  have hone : (sampleDns (str "bpple.com" ++ .replicate 11 0) [str "apple.com" ++ .replicate 11 0]).Possible
      (Misspelt apple) (Contains apple) := by
    refine sampleDns_possible ⟨0, by decide, [], .replicate 11 0, by decide⟩ (by decide) fun y hy => ?_
    rw [List.mem_singleton.mp hy]
    exact ⟨[], .replicate 11 0, by decide⟩
  have htwo : (sampleDns (str "zjtongli.mepaloa" ++ .replicate 4 0) twoNames).Possible
      (Misspelt (str "zitongli.mepaloa")) (· ∈ twoNames) :=
    sampleDns_possible ⟨1, by decide, [], .replicate 4 0, by decide⟩ (by decide) (by decide)
  exact ⟨hempty, hone, htwo, hempty, hone, htwo⟩

theorem sampleNames_clear : sampleNames.Clear := by
  have hone : (sampleDns (str "bpple.com" ++ .replicate 11 0) [str "apple.com" ++ .replicate 11 0]).Clear [apple] :=
    sampleDns_clear (by decide)
  have htwo : (sampleDns (str "zjtongli.mepaloa" ++ .replicate 4 0) twoNames).Clear twoNames :=
    sampleDns_clear (by decide)
  exact ⟨hone, htwo, hone, htwo⟩

def sample : Draws where
  srcmac := sampleDraws (.replicate 6)
  dstmac := sampleDraws (.replicate 6)
  srcip := sampleDraws (.replicate 4)
  dstip := sampleDraws (.replicate 4)
  srcport := sampleDraws (·.setWidth 16)
  dstport := sampleDraws (·.setWidth 16)
  dns := sampleNames
  reply := ⟨sampleAddresses, sampleAddresses, .replicate 10 (samplePacket 0 (.replicate 8 0))⟩

/-- At power-on, with a process that has just been started. -/
def Bench.start : Bench where
  host :=
    { prober := ⟨initialiseFpgaConfiguration, ⟨0, 0, 0, 0, 0⟩, initialiseFpgaConfiguration, .init⟩
      recvPktBuf := List.replicate bufferSize 0
      admin := .init
      sendPkt := .init }
  board := ⟨.init, Hw.IState.init.tally⟩

theorem start_ready : Bench.start.host.Ready := ⟨.start, rfl⟩

/-- Another host sends in every turn. -/
def sampleAir : Air := ⟨fun _ => [otherFrame], 3, [], [otherFrame]⟩

theorem sampleAir_quiet : sampleAir.Quiet := by
  have hforeign : ∀ a ∈ [otherFrame], a.Foreign := by
    intro a ha
    rw [List.mem_singleton.mp ha]
    exact ⟨by decide, by decide⟩
  exact ⟨⟨fun _ => hforeign, nofun, hforeign, by decide⟩, rfl⟩

/-- All eight suites, at power-on. -/
theorem validation_passes_start :
    (∃ b', runSuites {} Hw.replyMac (fun _ _ => sampleAir) 0 sample.suites .start = some (.replicate 8 none, b') ∧
        b'.host.Ready) ∧
      ∃ b', firstFail {} Hw.replyMac (fun _ => sampleAir) sample.suites .start = some (none, b') ∧
        b'.host.Ready := by
  refine validation_passes ⟨paired_default, by decide +kernel, rfl⟩ ?_ ?_ ?_ start_ready (List.Subset.refl sample.suites)
  · exact {
      srcmac := sampleDraws_possible (fun _ _ => rfl) (fun _ _ => rfl) (by decide)
      dstmac := sampleDraws_possible (fun _ _ => rfl) (fun _ _ => rfl) (by decide)
      srcip := sampleDraws_possible (fun _ _ => rfl) (fun _ _ => rfl) (by decide)
      dstip := sampleDraws_possible (fun _ _ => rfl) (fun _ _ => rfl) (by decide)
      srcport := sampleDraws_possible (fun _ _ => rfl) (fun _ _ => rfl) (by decide)
      dstport := sampleDraws_possible (fun _ _ => rfl) (fun _ _ => rfl) (by decide)
      dns := sampleNames_possible
      reply := ⟨by decide⟩ }
  · have hfresh {α : Type} (item : BitVec 8 → α) : (sampleDraws item).Fresh :=
      ⟨sampleDraw_fresh item [1], sampleDraw_fresh item [1, 2]⟩
    have hdstmac : (sampleDraws (.replicate 6)).Possible dstMACField Packet.dstmac :=
      sampleDraws_possible (fun _ _ => rfl) (fun _ _ => rfl) (by decide)
    exact ⟨hfresh _, hfresh _, hdstmac.one.first.2, hfresh _, hfresh _, hfresh _, hfresh _, sampleNames_clear⟩
  · exact fun _ _ => sampleAir_quiet

def sampleHit : ListDraw MacAddr :=
  ⟨sampleAddresses, sampleAddresses, [.replicate 6 1], [samplePacket 0 (.replicate 8 0), samplePacket 1 (.replicate 8 1)], []⟩

/-- The second of its packets is for the address on the list. -/
theorem testFilter_exact_hit : ∃ result b', runChecks {} Hw.replyMac (fun _ => sampleAir) 0
    (testFilter dstMACField 0 .notBlock sampleHit) .start = some (result, b') ∧ result ≠ none := by
  have hfit : ∀ c ∈ sampleHit.first ++ sampleHit.second, c.Fit := by
    intro c hc
    rcases List.mem_cons.mp hc with rfl | hc
    · exact ⟨by decide, by decide, by decide⟩
    · rw [List.mem_singleton.mp hc]
      exact ⟨by decide, by decide, by decide⟩
  have hhit : samplePacket 1 (.replicate 8 1) ∈ sampleHit.first := List.mem_cons_of_mem _ List.mem_cons_self
  obtain ⟨result, b', hrun, -, hiff⟩ := @testFilter_exact {} Hw.replyMac .start MacAddr dstMACField
    ⟨paired_default, by decide +kernel, rfl⟩ dstMACField_lawful 0 sampleHit (by decide) hfit (by decide) .notBlock
    (fun _ => sampleAir) (fun _ => sampleAir_quiet) 0 start_ready
  exact ⟨result, b', hrun, fun h => (hiff.mp h).1 _ hhit (by decide)⟩

end DnsAdtm
