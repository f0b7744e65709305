/-
# `Hw.FilterCodec` — a filter as 678 bits

An administrator's packet carries a filter, and a probe reply carries one back, in
the same layout: seven lists, each a BW bit, a two-bit length and two entries, the
DNS list with its two end pointers in front of the entries, and the reply type.

    list      BW    length     end pointers            entries
    srcMAC      0     1..2                             3..50      51..98
    dstMAC     99   100..101                         102..149    150..197
    srcIP     198   199..200                         201..232    233..264
    dstIP     265   266..267                         268..299    300..331
    srcPort   332   333..334                         335..350    351..366
    dstPort   367   368..369                         370..385    386..401
    dns       402   403..404   405..412  413..420    421..548    549..676
    replyType 677

`Filter.decode` reads a bit stream by this table and `Filter.segments` writes one; the
two are inverse (`decode_stream`, `decode_inj`).  `corein` reads a packet in 29 periods
spread over 15 states; `Filter.updateStep` lists what they assign, and
`updated_eq_decode` says that together they leave nothing of the old filter.
-/
import DnsAdtm.Hw.Common

namespace DnsAdtm.Hw

variable {b b' : Nat → Bool}

/-- The filter laid out in the stream `b`. -/
def Filter.decode (b : Nat → Bool) : Filter where
  srcMACBW := b 0
  srcMACLength := (field b 1 2).toNat
  srcMACList := #v[field b 3 48, field b 51 48]
  dstMACBW := b 99
  dstMACLength := (field b 100 2).toNat
  dstMACList := #v[field b 102 48, field b 150 48]
  srcIPBW := b 198
  srcIPLength := (field b 199 2).toNat
  srcIPList := #v[field b 201 32, field b 233 32]
  dstIPBW := b 265
  dstIPLength := (field b 266 2).toNat
  dstIPList := #v[field b 268 32, field b 300 32]
  srcPortBW := b 332
  srcPortLength := (field b 333 2).toNat
  srcPortList := #v[field b 335 16, field b 351 16]
  dstPortBW := b 367
  dstPortLength := (field b 368 2).toNat
  dstPortList := #v[field b 370 16, field b 386 16]
  dnsBW := b 402
  dnsLength := (field b 403 2).toNat
  dnsItemEndPtr := #v[(field b 405 8).toNat, (field b 413 8).toNat]
  dnsList := #v[field b 421 128, field b 549 128]
  replyType := b 677

/-- A filter is in bits 0 to 677 and nowhere else. -/
theorem Filter.decode_congr (h : ∀ n, n < 678 → b n = b' n) : Filter.decode b = Filter.decode b' := by
  have hfield : ∀ off w, off + w ≤ 678 → field b off w = field b' off w :=
    fun off w hle => field_congr fun i hi => h _ (by omega)
  have hlist : ∀ off off' w, off + w ≤ 678 → off' + w ≤ 678 →
      (#v[field b off w, field b off' w] : FilterList w) = #v[field b' off w, field b' off' w] :=
    fun off off' w hle hle' => by rw [hfield off w hle, hfield off' w hle']
  have hptrs : (#v[(field b 405 8).toNat, (field b 413 8).toNat] : Vector Nat filterDepth) =
      #v[(field b' 405 8).toNat, (field b' 413 8).toNat] := by
    simp only [hfield 405 8 (by omega), hfield 413 8 (by omega)]
  unfold Filter.decode
  refine Filter.mk.injEq .. |>.mpr ⟨h 0 (by omega), congrArg BitVec.toNat (hfield 1 2 (by omega)), hlist 3 51 48 (by omega) (by omega),
    h 99 (by omega), congrArg BitVec.toNat (hfield 100 2 (by omega)), hlist 102 150 48 (by omega) (by omega),
    h 198 (by omega), congrArg BitVec.toNat (hfield 199 2 (by omega)), hlist 201 233 32 (by omega) (by omega),
    h 265 (by omega), congrArg BitVec.toNat (hfield 266 2 (by omega)), hlist 268 300 32 (by omega) (by omega),
    h 332 (by omega), congrArg BitVec.toNat (hfield 333 2 (by omega)), hlist 335 351 16 (by omega) (by omega),
    h 367 (by omega), congrArg BitVec.toNat (hfield 368 2 (by omega)), hlist 370 386 16 (by omega) (by omega),
    h 402 (by omega), congrArg BitVec.toNat (hfield 403 2 (by omega)), hptrs, hlist 421 549 128 (by omega) (by omega),
    h 677 (by omega)⟩

/-- The two entries of a list give its bits back. -/
theorem agree_of_entries {off w : Nat}
    (h : (#v[field b off w, field b (off + w) w] : FilterList w) =
      #v[field b' off w, field b' (off + w) w]) {n : Nat} (hlo : off ≤ n) (hhi : n < off + 2 * w) :
    b n = b' n := by
  have h0 : field b off w = field b' off w := congrArg (fun l : FilterList w => l[0]) h
  have h1 : field b (off + w) w = field b' (off + w) w := congrArg (fun l : FilterList w => l[1]) h
  rcases Nat.lt_or_ge n (off + w) with hlt | hge
  · exact field_inj h0 hlo hlt
  · exact field_inj h1 hge (by omega)

/-- A number of the layout gives its bits back. -/
theorem agree_of_toNat {off w : Nat} (h : (field b off w).toNat = (field b' off w).toNat) {n : Nat}
    (hlo : off ≤ n) (hhi : n < off + w) : b n = b' n :=
  field_inj (BitVec.eq_of_toNat_eq h) hlo hhi

/-- The decoding loses none of the bits. -/
theorem Filter.decode_inj (h : Filter.decode b = Filter.decode b') {n : Nat} (hn : n < 678) :
    b n = b' n := by
  unfold Filter.decode at h
  obtain ⟨bw₁, len₁, list₁, bw₂, len₂, list₂, bw₃, len₃, list₃, bw₄, len₄, list₄, bw₅, len₅, list₅,
    bw₆, len₆, list₆, bw₇, len₇, ptrs, list₇, reply⟩ := Filter.mk.injEq .. |>.mp h
  have ptr₀ := congrArg (fun l : Vector Nat filterDepth => l[0]) ptrs
  have ptr₁ := congrArg (fun l : Vector Nat filterDepth => l[1]) ptrs
  -- from the last segment down
  rcases Nat.lt_or_ge n 677 with hn | _; swap
  · rwa [show n = 677 by omega]
  rcases Nat.lt_or_ge n 421 with hn | hge; swap
  · exact agree_of_entries list₇ hge hn
  rcases Nat.lt_or_ge n 413 with hn | hge; swap
  · exact agree_of_toNat ptr₁ hge hn
  rcases Nat.lt_or_ge n 405 with hn | hge; swap
  · exact agree_of_toNat ptr₀ hge hn
  rcases Nat.lt_or_ge n 403 with hn | hge; swap
  · exact agree_of_toNat len₇ hge hn
  rcases Nat.lt_or_ge n 402 with hn | _; swap
  · rwa [show n = 402 by omega]
  rcases Nat.lt_or_ge n 370 with hn | hge; swap
  · exact agree_of_entries list₆ hge hn
  rcases Nat.lt_or_ge n 368 with hn | hge; swap
  · exact agree_of_toNat len₆ hge hn
  rcases Nat.lt_or_ge n 367 with hn | _; swap
  · rwa [show n = 367 by omega]
  rcases Nat.lt_or_ge n 335 with hn | hge; swap
  · exact agree_of_entries list₅ hge hn
  rcases Nat.lt_or_ge n 333 with hn | hge; swap
  · exact agree_of_toNat len₅ hge hn
  rcases Nat.lt_or_ge n 332 with hn | _; swap
  · rwa [show n = 332 by omega]
  rcases Nat.lt_or_ge n 268 with hn | hge; swap
  · exact agree_of_entries list₄ hge hn
  rcases Nat.lt_or_ge n 266 with hn | hge; swap
  · exact agree_of_toNat len₄ hge hn
  rcases Nat.lt_or_ge n 265 with hn | _; swap
  · rwa [show n = 265 by omega]
  rcases Nat.lt_or_ge n 201 with hn | hge; swap
  · exact agree_of_entries list₃ hge hn
  rcases Nat.lt_or_ge n 199 with hn | hge; swap
  · exact agree_of_toNat len₃ hge hn
  rcases Nat.lt_or_ge n 198 with hn | _; swap
  · rwa [show n = 198 by omega]
  rcases Nat.lt_or_ge n 102 with hn | hge; swap
  · exact agree_of_entries list₂ hge hn
  rcases Nat.lt_or_ge n 100 with hn | hge; swap
  · exact agree_of_toNat len₂ hge hn
  rcases Nat.lt_or_ge n 99 with hn | _; swap
  · rwa [show n = 99 by omega]
  rcases Nat.lt_or_ge n 3 with hn | hge; swap
  · exact agree_of_entries list₁ hge hn
  rcases Nat.lt_or_ge n 1 with hn | hge; swap
  · exact agree_of_toNat len₁ hge hn
  rwa [show n = 0 by omega]

/-! ## The update, period by period -/

/-- What the 29 periods of `UpdateFilterSrcMACMeta .. UpdateReplyType` assign to `f`, in
their order: a list takes four of them, for its head, its two entries, and the move
on to the next list. -/
def Filter.updateStep (pkt : BitVec 1024) : Nat → Filter → Filter
  | 0, f => { f with srcMACBW := pkt.getLsbD 0, srcMACLength := (downto pkt 2 1 : BitVec 2).toNat }
  | 1, f => { f with srcMACList := f.srcMACList.set 0 (downto pkt 50 3) }
  | 2, f => { f with srcMACList := f.srcMACList.set 1 (downto pkt 98 51) }
  | 4, f => { f with dstMACBW := pkt.getLsbD 99, dstMACLength := (downto pkt 101 100 : BitVec 2).toNat }
  | 5, f => { f with dstMACList := f.dstMACList.set 0 (downto pkt 149 102) }
  | 6, f => { f with dstMACList := f.dstMACList.set 1 (downto pkt 197 150) }
  | 8, f => { f with srcIPBW := pkt.getLsbD 198, srcIPLength := (downto pkt 200 199 : BitVec 2).toNat }
  | 9, f => { f with srcIPList := f.srcIPList.set 0 (downto pkt 232 201) }
  | 10, f => { f with srcIPList := f.srcIPList.set 1 (downto pkt 264 233) }
  | 12, f => { f with dstIPBW := pkt.getLsbD 265, dstIPLength := (downto pkt 267 266 : BitVec 2).toNat }
  | 13, f => { f with dstIPList := f.dstIPList.set 0 (downto pkt 299 268) }
  | 14, f => { f with dstIPList := f.dstIPList.set 1 (downto pkt 331 300) }
  | 16, f => { f with srcPortBW := pkt.getLsbD 332, srcPortLength := (downto pkt 334 333 : BitVec 2).toNat }
  | 17, f => { f with srcPortList := f.srcPortList.set 0 (downto pkt 350 335) }
  | 18, f => { f with srcPortList := f.srcPortList.set 1 (downto pkt 366 351) }
  | 20, f => { f with dstPortBW := pkt.getLsbD 367, dstPortLength := (downto pkt 369 368 : BitVec 2).toNat }
  | 21, f => { f with dstPortList := f.dstPortList.set 0 (downto pkt 385 370) }
  | 22, f => { f with dstPortList := f.dstPortList.set 1 (downto pkt 401 386) }
  | 24, f => { f with
      dnsBW := pkt.getLsbD 402
      dnsLength := (downto pkt 404 403 : BitVec 2).toNat
      dnsItemEndPtr := (f.dnsItemEndPtr.set 0 (downto pkt 412 405 : BitVec 8).toNat).set 1
        (downto pkt 420 413 : BitVec 8).toNat }
  | 25, f => { f with dnsList := f.dnsList.set 0 (downto pkt 548 421) }
  | 26, f => { f with dnsList := f.dnsList.set 1 (downto pkt 676 549) }
  | 28, f => { f with replyType := pkt.getLsbD 677 }
  | _, f => f

/-- `f` after the first `n` periods. -/
def Filter.updated (pkt : BitVec 1024) (f : Filter) : Nat → Filter
  | 0 => f
  | n + 1 => Filter.updateStep pkt n (Filter.updated pkt f n)

/-- The whole update leaves nothing of the old filter. -/
theorem Filter.updated_eq_decode (pkt : BitVec 1024) (f : Filter) :
    Filter.updated pkt f 29 = Filter.decode pkt.getLsbD := by
  unfold Filter.decode
  simp only [Filter.updated, Filter.updateStep, set_set_eq, downto_eq_field]

/-! ## Packing -/

/-- A number fits the field it is packed into. -/
structure Filter.Packable (f : Filter) : Prop where
  srcMAC : f.srcMACLength < 4
  dstMAC : f.dstMACLength < 4
  srcIP : f.srcIPLength < 4
  dstIP : f.dstIPLength < 4
  srcPort : f.srcPortLength < 4
  dstPort : f.dstPortLength < 4
  dns : f.dnsLength < 4
  endPtr₀ : f.dnsItemEndPtr[0] < 256
  endPtr₁ : f.dnsItemEndPtr[1] < 256

/-- The layout of a filter, field by field. -/
def Filter.segments (f : Filter) : List Seg :=
  [⟨1, BitVec.ofBool f.srcMACBW⟩, ⟨2, BitVec.ofNat 2 f.srcMACLength⟩,
    ⟨48, f.srcMACList[0]⟩, ⟨48, f.srcMACList[1]⟩,
    ⟨1, BitVec.ofBool f.dstMACBW⟩, ⟨2, BitVec.ofNat 2 f.dstMACLength⟩,
    ⟨48, f.dstMACList[0]⟩, ⟨48, f.dstMACList[1]⟩,
    ⟨1, BitVec.ofBool f.srcIPBW⟩, ⟨2, BitVec.ofNat 2 f.srcIPLength⟩,
    ⟨32, f.srcIPList[0]⟩, ⟨32, f.srcIPList[1]⟩,
    ⟨1, BitVec.ofBool f.dstIPBW⟩, ⟨2, BitVec.ofNat 2 f.dstIPLength⟩,
    ⟨32, f.dstIPList[0]⟩, ⟨32, f.dstIPList[1]⟩,
    ⟨1, BitVec.ofBool f.srcPortBW⟩, ⟨2, BitVec.ofNat 2 f.srcPortLength⟩,
    ⟨16, f.srcPortList[0]⟩, ⟨16, f.srcPortList[1]⟩,
    ⟨1, BitVec.ofBool f.dstPortBW⟩, ⟨2, BitVec.ofNat 2 f.dstPortLength⟩,
    ⟨16, f.dstPortList[0]⟩, ⟨16, f.dstPortList[1]⟩,
    ⟨1, BitVec.ofBool f.dnsBW⟩, ⟨2, BitVec.ofNat 2 f.dnsLength⟩,
    ⟨8, BitVec.ofNat 8 f.dnsItemEndPtr[0]⟩, ⟨8, BitVec.ofNat 8 f.dnsItemEndPtr[1]⟩,
    ⟨128, f.dnsList[0]⟩, ⟨128, f.dnsList[1]⟩,
    ⟨1, BitVec.ofBool f.replyType⟩]

/-- The widths of the fields. -/
def Filter.layout : List Nat :=
  [1, 2, 48, 48, 1, 2, 48, 48, 1, 2, 32, 32, 1, 2, 32, 32, 1, 2, 16, 16, 1, 2, 16, 16,
    1, 2, 8, 8, 128, 128, 1]

theorem Filter.map_segments (f : Filter) : f.segments.map (·.1) = Filter.layout := rfl

theorem Filter.widths_take (f : Filter) (i : Nat) :
    widths (f.segments.take i) = (Filter.layout.take i).sum := by
  rw [widths, List.map_take, Filter.map_segments]

theorem Filter.widths_segments (f : Filter) : widths f.segments = 678 := by
  rw [widths, Filter.map_segments]
  decide

/-- What is packed is what is decoded. -/
theorem Filter.decode_stream {f : Filter} (hf : f.Packable) :
    Filter.decode (stream f.segments) = f := by
  have hfield : ∀ (i : Nat) {w : Nat} (v : BitVec w) (off : Nat), f.segments[i]? = some ⟨w, v⟩ →
      (Filter.layout.take i).sum = off → field (stream f.segments) off w = v :=
    fun i _ _ off hget hoff => field_stream i off hget ((f.widths_take i).trans hoff)
  have hbool : ∀ (i : Nat) (x : Bool) (off : Nat), f.segments[i]? = some ⟨1, BitVec.ofBool x⟩ →
      (Filter.layout.take i).sum = off → stream f.segments off = x := by
    intro i x off hget hoff
    have := eq_stream_of_field (hfield i _ off hget hoff) Nat.one_pos
    rw [Nat.add_zero] at this
    rw [this]
    cases x <;> rfl
  have hnat : ∀ (i w x off : Nat), f.segments[i]? = some ⟨w, BitVec.ofNat w x⟩ →
      (Filter.layout.take i).sum = off → x < 2 ^ w → (field (stream f.segments) off w).toNat = x := by
    intro i w x off hget hoff hx
    rw [hfield i _ off hget hoff, BitVec.toNat_ofNat, Nat.mod_eq_of_lt hx]
  have hlist : ∀ (i : Nat) {w : Nat} (l : FilterList w) (off : Nat),
      f.segments[i]? = some ⟨w, l[0]⟩ → f.segments[i + 1]? = some ⟨w, l[1]⟩ →
      (Filter.layout.take i).sum = off → (Filter.layout.take (i + 1)).sum = off + w →
      #v[field (stream f.segments) off w, field (stream f.segments) (off + w) w] = l := by
    intro i w l off h0 h1 hoff hoff'
    rw [hfield i _ off h0 hoff, hfield (i + 1) _ (off + w) h1 hoff', ← set_set_eq l]
    simp
  have hptrs : (#v[(field (stream f.segments) 405 8).toNat, (field (stream f.segments) 413 8).toNat] :
      Vector Nat filterDepth) = f.dnsItemEndPtr := by
    have h0 := hnat 26 8 f.dnsItemEndPtr[0] 405 rfl (by decide) hf.endPtr₀
    have h1 := hnat 27 8 f.dnsItemEndPtr[1] 413 rfl (by decide) hf.endPtr₁
    rw [h0, h1, ← set_set_eq f.dnsItemEndPtr]
    simp
  unfold Filter.decode
  exact (Filter.mk.injEq ..).mpr
    ⟨hbool 0 f.srcMACBW 0 rfl (by decide), hnat 1 2 f.srcMACLength 1 rfl (by decide) hf.srcMAC,
      hlist 2 f.srcMACList 3 rfl rfl (by decide) (by decide),
      hbool 4 f.dstMACBW 99 rfl (by decide), hnat 5 2 f.dstMACLength 100 rfl (by decide) hf.dstMAC,
      hlist 6 f.dstMACList 102 rfl rfl (by decide) (by decide),
      hbool 8 f.srcIPBW 198 rfl (by decide), hnat 9 2 f.srcIPLength 199 rfl (by decide) hf.srcIP,
      hlist 10 f.srcIPList 201 rfl rfl (by decide) (by decide),
      hbool 12 f.dstIPBW 265 rfl (by decide), hnat 13 2 f.dstIPLength 266 rfl (by decide) hf.dstIP,
      hlist 14 f.dstIPList 268 rfl rfl (by decide) (by decide),
      hbool 16 f.srcPortBW 332 rfl (by decide), hnat 17 2 f.srcPortLength 333 rfl (by decide) hf.srcPort,
      hlist 18 f.srcPortList 335 rfl rfl (by decide) (by decide),
      hbool 20 f.dstPortBW 367 rfl (by decide), hnat 21 2 f.dstPortLength 368 rfl (by decide) hf.dstPort,
      hlist 22 f.dstPortList 370 rfl rfl (by decide) (by decide),
      hbool 24 f.dnsBW 402 rfl (by decide), hnat 25 2 f.dnsLength 403 rfl (by decide) hf.dns, hptrs,
      hlist 28 f.dnsList 421 rfl rfl (by decide) (by decide),
      hbool 30 f.replyType 677 rfl (by decide)⟩

end DnsAdtm.Hw
