/-
# `Hw.RcvLoad` — `FIFO_rcv` and `corein` at line rate

`Receives` is what a run keeps of the receive side: the FIFO is in step with its indices and has
skipped nothing, `corein` stands at a place of its routes, and its filter is in range, since it
is the one it began with or one that an authentic packet of the line carried.  With it every edge
of `clk50` is one of the `load` edges left, and every packet that arrives adds `2 * serviceTime`
of them.  So the load stays within one packet, when there are that many edges from one packet to
the next (`rcv_load`).
-/
import DnsAdtm.Hw.CoreinTime
import DnsAdtm.Hw.Device
import DnsAdtm.Hw.FifoLoad
import DnsAdtm.Hw.LineRate

namespace DnsAdtm.Hw

open Machine Backlog

variable {g : Generics} {f : Filter} {ps : List RcvData} {st : Corein} {x : Watched RcvData Corein}

/-! ## The receive side -/

/-- What a run keeps of `FIFO_rcv` and `corein`. -/
structure Receives (g : Generics) (f : Filter) (x : Watched RcvData Corein) : Prop where
  tracks : Tracks (coreinReader g) x
  kept : Kept (coreinReader g) x
  auth : AuthInv g f x.latched x.reader
  loop : x.reader.hash.InLoop
  place : x.reader.core.Place
  ranged : x.reader.core.f.Ranged

theorem Filter.InRange.ranged (h : f.InRange) : f.Ranged where
  srcMAC := h.srcMAC
  dstMAC := h.dstMAC
  srcIP := h.srcIP
  dstIP := h.dstIP
  srcPort := h.srcPort
  dstPort := h.dstPort
  dns := h.dns
  endPtr i hi := by
    have hle := h.endPtr_le i
    rw [Filter.endPtr, Vector.getElem?_eq_getElem hi, Option.getD_some] at hle
    exact hle

section Steps
variable (h : Receives g f x)
include h

theorem Receives.write (wEn : Bool) (wData : RcvData) : Receives g f (x.edge (coreinReader g) (.write wEn wData)) := by
  obtain ⟨-, hlatched, hreader⟩ := @edge_write_read _ _ (coreinReader g) x wEn wData
  exact
    { tracks := h.tracks.write wEn wData
      kept := h.kept.write h.tracks wEn wData
      auth := by
        rw [hlatched, hreader]
        exact h.auth
      loop := by
        rw [hreader]
        exact h.loop
      place := by
        rw [hreader]
        exact h.place
      ranged := by
        rw [hreader]
        exact h.ranged }

variable (hps : ∀ p ∈ x.written, UpdateInRange g p)
include hps

theorem Receives.latched_inRange : ∀ p ∈ x.latched, UpdateInRange g p :=
  fun p hp => hps p (h.kept.taken.subset hp)

variable (hf : f.InRange)
include hf

theorem Receives.read (hroom : x.writes < x.reads + gDepth) : Receives g f (x.edge (coreinReader g) .read) := by
  have htracks := h.tracks.read (coreinReader_lawful g)
  have hkept := h.kept.read h.tracks (coreinReader_lawful g) hroom
  cases hr : x.rclk with
  | true =>
      rw [edge_rclk_falls hr] at htracks hkept ⊢
      exact { h with tracks := htracks, kept := hkept }
  | false =>
      have htakes := h.auth.takes hf (h.latched_inRange hps)
      have hauth := authInv_step (i := ⟨x.fifo.rData, x.fifo.bufNotEmpty⟩) h.auth
      have hlatched := (coreinReader_lawful g).read x.reader x.fifo.rData x.fifo.bufNotEmpty
      rw [edge_rclk_rises hr] at htracks hkept ⊢
      exact
        { tracks := htracks
          kept := hkept
          auth := by
            by_cases hread : (coreinReader g).state x.reader = .read
            · rw [if_pos (coreinReader_read.mp hread)] at hauth
              dsimp only
              rw [if_pos hread, (hlatched hread).2]
              exact hauth
            · rw [if_neg (mt coreinReader_read.mpr hread), List.append_nil] at hauth
              dsimp only
              rw [if_neg hread]
              exact hauth
          loop := (Siphasher.cycle_left h.loop).1
          place := rcv_place h.ranged h.place htakes
          ranged := rcv_f_ranged h.ranged htakes }

/-- The periods of `corein` are those left. -/
theorem Receives.serves : Serves (coreinReader g) Corein.left serviceTime x where
  busy hs := by
    have hidle : x.reader.core.s.s ≠ .idle := fun hi => by
      rw [coreinReader_idle.mpr hi] at hs
      cases hs
    have hread : x.reader.core.s.s ≠ .read := fun hi => by
      rw [coreinReader_read.mpr hi] at hs
      cases hs
    refine corein_left h.auth h.loop h.place (fun hphase => ?_) hidle hread
    exact h.auth.filter_inRange hf (h.latched_inRange hps) (by rw [hphase]; decide)
  read hs := by
    have hread := coreinReader_read.mp hs
    refine corein_left_read (h.auth.filter_inRange hf (h.latched_inRange hps) ?_) hread
    rw [hread]
    decide

end Steps

/-! ## Runs -/

/-- The least gap between two frames that leaves time for the longest service: with the 110
nibbles of check sequence, preamble and headers it comes to `serviceTime`, two periods a nibble. -/
def leastGap : Nat := 956

/-- What is unread is not much more than what the index shows. -/
theorem Tracks.latched_le {α ρ : Type} {R : Reader α ρ} {x : Watched α ρ} (h : Tracks R x) :
    x.latched.length ≤ x.reads + 1 := by
  cases hack : R.ack x.reader with
  | true => exact Nat.le_of_eq (h.acked hack).2.1
  | false =>
      cases hr : x.rclk with
      | false =>
          rw [h.settled hack hr]
          exact Nat.le_succ _
      | true => rcases (h.moving hack hr).2 with heq | heq <;> omega

/-- Power-on, at any levels of the clocks. -/
theorem tracks_start {α ρ : Type} {R : Reader α ρ} (zero : α) {reader : ρ} (hack : R.ack reader = false)
    (wclk rclk : Bool) : Tracks R { Watched.init zero reader with wclk := wclk, rclk := rclk } where
  holds := .nil _
  wIndex := rfl
  winIndex _ := rfl
  writes _ := rfl
  writes_le := Nat.le_refl _
  le_writes := Nat.zero_le _
  rIndex := rfl
  acked h := absurd (hack.symm.trans h) (by decide)
  settled _ _ := rfl
  moving _ _ := ⟨rfl, .inl rfl⟩
  window _ := rfl

section Run
variable {gReplyMac : BitVec 48} {levels : Clock → Bool} {clocks : Clocks} {line : List RxIn}
  {frames : List (LineFrame × Nat)}

theorem receives_start (hf : f.InRange) : Receives g f (Main.start f levels).rcv where
  tracks := tracks_start _ rfl _ _
  kept := ⟨List.prefix_refl _, Nat.le_refl _, fun h => by cases h⟩
  auth := .quiet (List.mem_cons_self ..) rfl ⟨rfl, rfl⟩
  loop := trivial
  place := trivial
  ranged := hf.ranged

/-- Between two arrivals there are the nibbles from one notification to the next. -/
theorem arrivals_apart (hgap : ∀ p ∈ frames, leastGap ≤ p.2) {s t : Nat} (hlt : s < t)
    (ha : (Main.at g gReplyMac f levels clocks (lineOf frames) s).Arrives (clocks s))
    (ha' : (Main.at g gReplyMac f levels clocks (lineOf frames) t).Arrives (clocks t)) :
    2 * (leastGap + 110) ≤ clocks.edges .rx s t := by
  have hs := @onLine_at g gReplyMac f levels clocks (lineOf frames) s
  have ht := @onLine_at g gReplyMac f levels clocks (lineOf frames) t
  obtain ⟨hmore, hedges⟩ := hs.edges_between ht hlt ha ha'
  obtain ⟨j, hj, hnotified⟩ := hs.notified ha
  obtain ⟨k, hk, hnotified'⟩ := ht.notified ha'
  have hapart := spaced_line (by decide) hgap (show j < k by omega) hnotified hnotified'
  omega

/-- So there is time for a packet. -/
theorem arrivals_spaced (hclocks : clocks.InStep) (hgap : ∀ p ∈ frames, leastGap ≤ p.2) {s t : Nat} (hlt : s < t)
    (ha : (Main.at g gReplyMac f levels clocks (lineOf frames) s).Arrives (clocks s))
    (ha' : (Main.at g gReplyMac f levels clocks (lineOf frames) t).Arrives (clocks t)) :
    2 * serviceTime ≤ during (clocks · = .core) (s + 1) t := by
  have hapart := arrivals_apart hgap hlt ha ha'
  obtain ⟨-, hrate⟩ := hclocks .rx (by decide) s t (Nat.le_of_lt hlt)
  have hsplit : during (clocks · = .core) s t =
      during (clocks · = .core) s (s + 1) + during (clocks · = .core) (s + 1) t :=
    during_trans (Nat.le_succ s) hlt
  have hfirst : during (clocks · = .core) s (s + 1) = 0 := by
    rw [during_succ (Nat.le_refl s), during_self, ha.1, if_neg (by decide)]
  have hcore : clocks.edges .core s t = during (clocks · = .core) s t := rfl
  have hservice : 2 * serviceTime = 4260 := rfl
  have hleast : 2 * (2 * (leastGap + 110)) = 4264 := rfl
  omega

/-- Whatever is written is a frame of the line. -/
theorem written_inRange (hps : ∀ p ∈ frames, UpdateInRange g p.1.frame.rcvData)
    (hgap : ∀ p ∈ frames, leastGap ≤ p.2) (t : Nat) :
    ∀ p ∈ (Main.at g gReplyMac f levels clocks (lineOf frames) t).rcv.written, UpdateInRange g p := by
  intro p hp
  obtain ⟨k, hnotified, rfl⟩ := (onLine_at t).packets p hp
  obtain ⟨q, hq, hdata⟩ :=
    notified_line (fun p hp => Nat.lt_of_lt_of_le (by decide) (hgap p hp)) hnotified
  rw [hdata]
  exact hps q hq

/-- A load within one packet leaves room. -/
theorem roomy_of_load {α ρ : Type} {R : Reader α ρ} {x : Watched α ρ} {left : ρ → Nat} {cost n : Nat}
    (htracks : Tracks R x) (hload : x.load R left cost < 2 * (cost * (n + 1))) :
    x.writes ≤ x.latched.length + n ∧ x.writes ≤ x.reads + (n + 1) := by
  have hle : cost * (x.writes - x.latched.length) < cost * (n + 1) := by
    rw [Watched.load] at hload
    omega
  have hfew := Nat.lt_of_mul_lt_mul_left hle
  have hlatched := htracks.latched_le
  omega

/-- An edge of the clocks, for the receive side. -/
theorem rcv_load_step (hf : f.InRange) (hps : ∀ p ∈ frames, UpdateInRange g p.1.frame.rcvData)
    (hgap : ∀ p ∈ frames, leastGap ≤ p.2) {t : Nat} {m m' : Main}
    (hm : m = Main.at g gReplyMac f levels clocks (lineOf frames) t)
    (hm' : m' = Main.at g gReplyMac f levels clocks (lineOf frames) (t + 1)) (h : Receives g f m.rcv)
    (hload : m.rcv.load (coreinReader g) Corein.left serviceTime ≤ 3 + 2 * serviceTime) :
    Receives g f m'.rcv ∧ m'.rcv.load (coreinReader g) Corein.left serviceTime ≤
      max (m.rcv.load (coreinReader g) Corein.left serviceTime - if clocks t = .core then 1 else 0) 3 +
        if m.Arrives (clocks t) then 2 * serviceTime else 0 := by
  have hwritten : ∀ p ∈ m.rcv.written, UpdateInRange g p := by
    rw [hm]
    exact written_inRange hps hgap t
  have hroom : m.rcv.writes < m.rcv.reads + gDepth := by
    have hlow : m.rcv.load (coreinReader g) Corein.left serviceTime < 2 * (serviceTime * (1 + 1)) :=
      Nat.lt_of_le_of_lt hload (by decide)
    have hfew := (roomy_of_load h.tracks hlow).2
    exact Nat.lt_of_le_of_lt hfew (Nat.add_lt_add_left (by decide) _)
  rw [at_succ, ← hm, Clocks.edgeOn] at hm'
  subst hm'
  cases hc : clocks t with
  | rx =>
      refine ⟨h.write _ _, ?_⟩
      show (m.rcv.edge (coreinReader g) (.write m.rx.elDv m.rx.d)).load _ _ _ ≤ _
      rw [load_write h.kept h.tracks, if_neg (show ¬ Clock.rx = .core by decide), Nat.sub_zero]
      refine Nat.add_le_add (Nat.le_max_left ..) (Nat.le_of_eq ?_)
      by_cases ha : m.rcv.wclk = true ∧ m.rcv.writes < m.rcv.written.length
      · rw [if_pos ha, if_pos ⟨rfl, ha⟩]
      · rw [if_neg ha, if_neg fun harrives => ha harrives.2]
  | core =>
      refine ⟨h.read hwritten hf hroom, ?_⟩
      rw [if_pos rfl, if_neg fun harrives => absurd harrives.1 (by decide), Nat.add_zero]
      exact load_read (coreinReader_lawful g) h.kept h.tracks hroom fun _ => h.serves hwritten hf
  | tx =>
      refine ⟨h, ?_⟩
      rw [if_neg (by decide), if_neg fun harrives => absurd harrives.1 (by decide)]
      exact Nat.le_max_left ..

variable (gReplyMac levels) in
/-- The load of `corein` stays within one packet. -/
theorem rcv_load (hf : f.InRange) (hps : ∀ p ∈ frames, UpdateInRange g p.1.frame.rcvData)
    (hgap : ∀ p ∈ frames, leastGap ≤ p.2) (hclocks : clocks.InStep) (t : Nat) :
    Receives g f (Main.at g gReplyMac f levels clocks (lineOf frames) t).rcv ∧
      (Main.at g gReplyMac f levels clocks (lineOf frames) t).rcv.load (coreinReader g) Corein.left serviceTime ≤
        3 + 2 * serviceTime := by
  refine @level_le (clocks · = .core)
    (fun t => (Main.at g gReplyMac f levels clocks (lineOf frames) t).Arrives (clocks t)) _
    (fun t => (Main.at g gReplyMac f levels clocks (lineOf frames) t).rcv.load (coreinReader g) Corein.left
      serviceTime) 3 (2 * serviceTime) _
    (fun t => Receives g f (Main.at g gReplyMac f levels clocks (lineOf frames) t).rcv)
    (receives_start hf) ?_ (fun s t hlt ha ha' => arrivals_spaced hclocks hgap hlt ha ha')
    (fun t h hload => rcv_load_step hf hps hgap rfl rfl h hload) t
  show 2 * (serviceTime * 0 + 1) + _ ≤ 3
  split <;> decide

end Run

/-! ## A line -/

/-- A frame that the power-on filter accepts, and the gap behind it. -/
def acceptedLine : List (LineFrame × Nat) :=
  [(⟨acceptedFrame 5 ihl_five, rfl, .replicate _ 0, List.length_replicate⟩, leastGap)]

theorem acceptedLine_inRange : ∀ p ∈ acceptedLine, UpdateInRange {} p.1.frame.rcvData := by
  intro p hp hauth
  rw [acceptedLine, List.mem_singleton] at hp
  subst hp
  exact absurd hauth.1 (by decide +kernel)

theorem acceptedLine_gap : ∀ p ∈ acceptedLine, leastGap ≤ p.2 := by
  intro p hp
  rw [acceptedLine, List.mem_singleton] at hp
  subst hp
  exact Nat.le_refl _

end DnsAdtm.Hw
