/-
# `Validation` — the validation suites (`commands/test.hh`, `commands/tests`)

A test applies a filter to the board, has it confirmed by a probe, and then sends packets through
the board, each of which is expected to come back, or not to.  What comes back is looked for in
`recv_pkt_buf`, where the receiver's thread leaves the frame it took last, whatever that is.

What is random in a test is given by a draw, and when frames come by `Air`.

    Check             one step of a test
    testFilter, …     the tests, and what their loops ask of a draw (`Possible`)
    runSuites         all suites, one after the other
-/
import DnsAdtm.AdminProtocol

namespace DnsAdtm

open Machine Sw

namespace Sw

/-! ## `expect_receive` -/

/-- `fpga_src_mac` -/
def fpgaSrcMac : List (BitVec 8) := [0x00, 0x0a, 0x35, 0x00, 0x00, 0x00]

/-- `recv_pkt_buf` behind a frame: the bytes it does not reach stay. -/
def received (buf : List (BitVec 8)) (a : Arrival) : List (BitVec 8) := a.recvPktBuf ++ buf.drop a.recvPktBuf.length

/-- The frame in the buffer is from the FPGA, and has this payload. -/
def Expected (payload buf : List (BitVec 8)) : Prop :=
  (buf.drop 6).take 6 = fpgaSrcMac ∧
    ((buf.getD 38 0 ++ buf.getD 39 0).setWidth 32 - 8 : BitVec 32).toNat = payload.length ∧
    (buf.drop 42).take payload.length = payload

instance (payload buf : List (BitVec 8)) : Decidable (Expected payload buf) := inferInstanceAs (Decidable (_ ∧ _))

/-- The globals of the command line that a test uses. -/
structure Host where
  prober : Prober
  recvPktBuf : List (BitVec 8)
  admin : AdminBuf
  sendPkt : SendPkt

/-- The receiver's thread takes the frames `as`, and comes to the end of its turn with each. -/
def Host.takes (h : Host) (as : List Arrival) : Host :=
  { h with
    prober.receiver := run probeReceiverDaemon h.prober.receiver (as.flatMap wholeTurn)
    recvPktBuf := as.foldl received h.recvPktBuf }

/-- The loop of `expect_receive` from look `c` on, with `turn c` taken behind it; and the look that
was the last. -/
def expectReceive (payload : List (BitVec 8)) (turn : Nat → List Arrival) : Nat → Nat → Host → Bool × Nat × Host
  | 0, c, h => (false, c, h)
  | left + 1, c, h =>
    if Expected payload h.recvPktBuf then (true, c, h) else expectReceive payload turn left (c + 1) (h.takes (turn c))

/-- When frames are taken while a packet is on its way: the board's in turn `delay`, and others in every
turn, in this one before it and `behind` it, and in the end. -/
structure Air where
  foreign : Nat → List Arrival
  delay : Nat
  behind : List Arrival
  rest : List Arrival

/-- The board's frame, if it sends one. -/
def fromBoard : Option (List (BitVec 8)) → List Arrival
  | none => []
  | some pkt => if h : 14 ≤ pkt.length then [⟨pkt, true, h⟩] else []

def Air.turn (air : Air) (answer : Option (List (BitVec 8))) (k : Nat) : List Arrival :=
  air.foreign k ++ if k = air.delay then fromBoard answer ++ air.behind else []

/-- The same, as `probe_fpga` sees it. -/
def Air.traffic (air : Air) (answer : Option (List (BitVec 8))) : Traffic := .ofTurns (air.turn answer) air.rest

/-- What has not been taken at look `c` is, in the pause behind it. -/
def Host.pause (h : Host) (air : Air) (answer : Option (List (BitVec 8))) (c : Nat) : Host :=
  (h.takes ((List.range' c (air.delay + 1 - c)).flatMap (air.turn answer))).takes air.rest

/-! ## The steps of a test -/

/-- `print_admin_mismatch_msg`, `print_not_recv_msg` and `print_not_block_msg` -/
inductive Message where
  | adminMismatch
  | notRecv
  | notBlock
  deriving DecidableEq

inductive Check where
  /-- up to `check_fpga_filter_matches` -/
  | config (f : Filter) (a a' : Addresses)
  | receive (c : Packet) (payload : List (BitVec 8))
  | block (c : Packet) (msg : Message)

/-- `form_packet`, and the frame that `trigger_send` then sends. -/
def sendPacket (c : Packet) (p : SendPkt) : Option (SendPkt × Hw.UdpFrame) :=
  if h : 1 ≤ c.udpPayload.length then some (formPacket c p, hostFrame c p h) else none

end Sw

/-- The command line, and the board that it is connected to. -/
structure Bench where
  host : Host
  board : Hw.Device

section Run
variable (g : Hw.Generics) (gReplyMac : BitVec 48)

/-- The board takes a frame. -/
def Hw.Device.reply (d : Hw.Device) (frame : Hw.UdpFrame) : Hw.Device × Option (List (BitVec 8)) :=
  ((d.handle g frame.rcvData).1, (d.handle g frame.rcvData).2.map fun rd => (Hw.sndOf gReplyMac rd).bytes)

/-- A packet is sent, and a payload looked for. -/
def Sw.Packet.look (air : Air) (b : Bench) (c : Packet) (payload : List (BitVec 8)) : Option (Bool × Bench) := do
  let (buf, frame) ← sendPacket c b.host.sendPkt
  let reply := b.board.reply g gReplyMac frame
  let seen := expectReceive payload (air.turn reply.2) 1000 0 { b.host with sendPkt := buf }
  some (seen.1, ⟨seen.2.2.pause air reply.2 seen.2.1, reply.1⟩)

/-- One step; the message is that of a failure. -/
def Sw.Check.run (air : Air) (b : Bench) : Check → Option (Option Message × Bench)
  | .config f a a' => do
    let admin ← writeToAdminPkt f b.host.admin
    let (buf, update) ← transmit a adminDstMac (admin.adminPkt.take bufferSize) b.host.sendPkt
    let board := (b.board.reply g gReplyMac update).1
    let (buf, probe) ← transmit a' probeMac probePayload buf
    let reply := board.reply g gReplyMac probe
    let checked := checkFpgaFilterMatches f (air.traffic reply.2) b.host.prober
    let host :=
      { prober := checked.2
        recvPktBuf := ((air.traffic reply.2).frames b.host.prober.receiver).foldl received b.host.recvPktBuf
        admin := admin
        sendPkt := buf }
    some (if checked.1 then none else some .adminMismatch, ⟨host, reply.1⟩)
  | .receive c payload => do
    let (seen, b) ← c.look g gReplyMac air b payload
    some (if seen then none else some .notRecv, b)
  | .block c msg => do
    let (seen, b) ← c.look g gReplyMac air b c.udpPayload
    some (if seen then some msg else none, b)

/-- A suite, up to its first failure. -/
def runChecks (airs : Nat → Air) : Nat → List Check → Bench → Option (Option Message × Bench)
  | _, [], b => some (none, b)
  | j, c :: cs, b => do
    let (msg, b) ← c.run g gReplyMac (airs j) b
    if msg = none then runChecks airs (j + 1) cs b else some (msg, b)

/-- `com_test_all`, or another command with fewer suites: each suite in turn, and what it failed with. -/
def runSuites (airs : Nat → Nat → Air) : Nat → List (List Check) → Bench → Option (List (Option Message) × Bench)
  | _, [], b => some ([], b)
  | i, cs :: suites, b => do
    let (msg, b) ← runChecks g gReplyMac (airs i) 0 cs b
    let (msgs, b) ← runSuites airs (i + 1) suites b
    some (msg :: msgs, b)

/-- `com_test_first_fail` -/
def firstFail (airs : Nat → Air) (suites : List (List Check)) (b : Bench) : Option (Option Message × Bench) :=
  runChecks g gReplyMac airs 0 suites.flatten b

end Run

namespace Sw

/-! ## The tests of a list -/

/-- A list of the filter, and the field of a packet that is compared with it. -/
structure Field (α : Type) where
  zero : α
  set : BitVec 1 → BitVec 2 → Vector α filterDepth → Filter
  get : Packet → α

def srcMACField : Field MacAddr where
  zero := .replicate 6 0
  set bw length list := { Filter.empty with srcMACBW := bw, srcMACLength := length, srcMACList := list }
  get := Packet.srcmac

def dstMACField : Field MacAddr where
  zero := .replicate 6 0
  set bw length list := { Filter.empty with dstMACBW := bw, dstMACLength := length, dstMACList := list }
  get := Packet.dstmac

def srcIPField : Field IpAddr where
  zero := .replicate 4 0
  set bw length list := { Filter.empty with srcIPBW := bw, srcIPLength := length, srcIPList := list }
  get := Packet.srcip

def dstIPField : Field IpAddr where
  zero := .replicate 4 0
  set bw length list := { Filter.empty with dstIPBW := bw, dstIPLength := length, dstIPList := list }
  get := Packet.dstip

def srcPortField : Field (BitVec 16) where
  zero := 0
  set bw length list := { Filter.empty with srcPortBW := bw, srcPortLength := length, srcPortList := list }
  get := Packet.srcport

def dstPortField : Field (BitVec 16) where
  zero := 0
  set bw length list := { Filter.empty with dstPortBW := bw, dstPortLength := length, dstPortList := list }
  get := Packet.dstport

/-- `{}` with the items in the list. -/
def Field.filter {α : Type} (F : Field α) (bw : BitVec 1) (items : List α) : Filter :=
  F.set bw (BitVec.ofNat 2 items.length) (.ofFn fun i => items.getD i F.zero)

/-- The packet comes back as it is. -/
def returns (c : Packet) : Check := .receive c c.udpPayload

/-- The random values of a test: the addresses of the update and of the probe, the items, and the
packets of the two loops. -/
structure ListDraw (α : Type) where
  a : Addresses
  a' : Addresses
  items : List α
  first : List Packet
  second : List Packet

/-- `test_*_empty`, `test_*_filter_one` and `test_*_filter_two` for `bw = 0`, the tests `*_white` for
`bw = 1`: packets that are not on the list, and packets that are. -/
def testFilter {α : Type} (F : Field α) (bw : BitVec 1) (msg : Message) (d : ListDraw α) : List Check :=
  .config (F.filter bw d.items) d.a d.a' ::
    if bw = 0 then d.first.map returns ++ d.second.map (.block · msg)
    else d.first.map (.block · msg) ++ d.second.map returns

/-- What `random_mac` returns. -/
def RandomMac (m : MacAddr) : Prop := m ≠ adminDstMac ∧ m ≠ probeMac

instance (m : MacAddr) : Decidable (RandomMac m) := inferInstanceAs (Decidable (_ ∧ _))

/-- A draw for `n` items: the first loop draws until `compared` is no item. -/
structure ListDraw.Possible {α : Type} (F : Field α) (compared : Packet → α) (n : Nat) (d : ListDraw α) : Prop where
  items : d.items.length = n
  packets : ∀ c ∈ d.first ++ d.second, RandomMac c.dstmac ∧ c.udpPayload.length = 8
  first : d.first.length = 10 ∧ ∀ c ∈ d.first, compared c ∉ d.items
  second : d.second.length = (if n = 0 then 0 else 10) ∧ ∀ c ∈ d.second, F.get c ∈ d.items

structure ListDraws (α : Type) where
  empty : ListDraw α
  one : ListDraw α
  two : ListDraw α
  emptyWhite : ListDraw α
  oneWhite : ListDraw α
  twoWhite : ListDraw α

def testFilters {α : Type} (F : Field α) (msg : Message) (ds : ListDraws α) : List Check :=
  testFilter F 0 .notBlock ds.empty ++ testFilter F 0 .notBlock ds.one ++ testFilter F 0 .notBlock ds.two ++
    testFilter F 1 msg ds.emptyWhite ++ testFilter F 1 .notBlock ds.oneWhite ++ testFilter F 1 .notBlock ds.twoWhite

/-- In `test_*_filter_one` it is `compared` that is drawn again. -/
structure ListDraws.Possible {α : Type} (F : Field α) (compared : Packet → α) (ds : ListDraws α) : Prop where
  empty : ds.empty.Possible F F.get 0
  one : ds.one.Possible F compared 1
  two : ds.two.Possible F F.get 2
  emptyWhite : ds.emptyWhite.Possible F F.get 0
  oneWhite : ds.oneWhite.Possible F F.get 1
  twoWhite : ds.twoWhite.Possible F F.get 2

/-- `test_mac_srcmac_empty_white` prints the message of a packet that is missing. -/
def testSrcmacFilters (ds : ListDraws MacAddr) : List Check := testFilters srcMACField .notRecv ds

def testDstmacFilters (ds : ListDraws MacAddr) : List Check := testFilters dstMACField .notBlock ds

def testSrcipFilters (ds : ListDraws IpAddr) : List Check := testFilters srcIPField .notBlock ds

def testDstipFilters (ds : ListDraws IpAddr) : List Check := testFilters dstIPField .notBlock ds

def testSrcportFilters (ds : ListDraws (BitVec 16)) : List Check := testFilters srcPortField .notBlock ds

def testDstportFilters (ds : ListDraws (BitVec 16)) : List Check := testFilters dstPortField .notBlock ds

/-! ## The tests of the names -/

/-- `{}` with the names. -/
def dnsFilter (bw : BitVec 1) (names : List Str) : Filter :=
  { Filter.empty with
    dnsBW := bw
    dnsLength := BitVec.ofNat 2 names.length
    dnsItemEndPtr := .ofFn fun i => BitVec.ofNat 8 (8 * (names.getD i []).length)
    dnsList := .ofFn fun i => copyBytes (.replicate 16 0) (names.getD i []) }

structure DnsDraw where
  a : Addresses
  a' : Addresses
  first : List Packet
  second : List Packet

/-- `test_dns_empty`, `test_dns_filter_one` and `test_dns_filter_two`, and the same with `_white`. -/
def testDns (bw : BitVec 1) (names : List Str) (d : DnsDraw) : List Check :=
  .config (dnsFilter bw names) d.a d.a' ::
    if bw = 0 then d.first.map returns ++ d.second.map (.block · .notBlock)
    else d.first.map (.block · .notBlock) ++ d.second.map returns

/-- 20 bytes with `w` among them, where there is room behind it. -/
def Contains (w payload : Str) : Prop :=
  ∃ before behind, payload = before ++ w ++ behind ∧ payload.length = 20 ∧ before.length < 20 - w.length

/-- The same, and a byte of `w` is one more. -/
def Misspelt (w payload : Str) : Prop := ∃ j < w.length, Contains (w.modify j (· + 1)) payload

structure DnsDraw.Possible (d : DnsDraw) (first second : Str → Prop) : Prop where
  packets : ∀ c ∈ d.first ++ d.second, RandomMac c.dstmac
  first : d.first.length = 10 ∧ ∀ c ∈ d.first, first c.udpPayload
  second : d.second.length ≤ 10 ∧ ∀ c ∈ d.second, second c.udpPayload

def apple : Str := str "apple.com"

def twoNames : List Str := [str "patrickwu.uk", str "zitongli.mepaloa"]

structure DnsDraws where
  empty : DnsDraw
  one : DnsDraw
  two : DnsDraw
  emptyWhite : DnsDraw
  oneWhite : DnsDraw
  twoWhite : DnsDraw

def testDnsFilters (ds : DnsDraws) : List Check :=
  testDns 0 [] ds.empty ++ testDns 0 [apple] ds.one ++ testDns 0 twoNames ds.two ++
    testDns 1 [] ds.emptyWhite ++ testDns 1 [apple] ds.oneWhite ++ testDns 1 twoNames ds.twoWhite

structure DnsDraws.Possible (ds : DnsDraws) : Prop where
  empty : ds.empty.Possible (·.length = 8) fun _ => False
  one : ds.one.Possible (Misspelt apple) (Contains apple)
  two : ds.two.Possible (Misspelt (str "zitongli.mepaloa")) (· ∈ twoNames)
  emptyWhite : ds.emptyWhite.Possible (·.length = 8) fun _ => False
  oneWhite : ds.oneWhite.Possible (Misspelt apple) (Contains apple)
  twoWhite : ds.twoWhite.Possible (Misspelt (str "zitongli.mepaloa")) (· ∈ twoNames)

/-! ## The test of the reply -/

/-- `expect_dns_response` -/
def expectDnsResponse (payload : List (BitVec 8)) : List (BitVec 8) :=
  [payload.getD 0 0, payload.getD 1 0, 0x84, 0x33] ++ .replicate 8 0

structure ReplyDraw where
  a : Addresses
  a' : Addresses
  packets : List Packet

/-- `test_reply_dns` -/
def testReply (d : ReplyDraw) : List Check :=
  .config { Filter.empty with replyType := 1 } d.a d.a' ::
    d.packets.map fun c => .receive c (expectDnsResponse c.udpPayload)

structure ReplyDraw.Possible (d : ReplyDraw) : Prop where
  packets : d.packets.length = 10 ∧ ∀ c ∈ d.packets, RandomMac c.dstmac ∧ c.udpPayload.length = 8

/-! ## All of them -/

structure Draws where
  srcmac : ListDraws MacAddr
  dstmac : ListDraws MacAddr
  srcip : ListDraws IpAddr
  dstip : ListDraws IpAddr
  srcport : ListDraws (BitVec 16)
  dstport : ListDraws (BitVec 16)
  dns : DnsDraws
  reply : ReplyDraw

/-- In the order of `com_test_all`. -/
def Draws.suites (ds : Draws) : List (List Check) :=
  [testSrcmacFilters ds.srcmac, testDstmacFilters ds.dstmac, testSrcipFilters ds.srcip, testDstipFilters ds.dstip,
    testSrcportFilters ds.srcport, testDstportFilters ds.dstport, testDnsFilters ds.dns, testReply ds.reply]

/-- `test_mac_dstmac_filter_one` compares the source address where it draws the destination. -/
structure Draws.Possible (ds : Draws) : Prop where
  srcmac : ds.srcmac.Possible srcMACField Packet.srcmac
  dstmac : ds.dstmac.Possible dstMACField Packet.srcmac
  srcip : ds.srcip.Possible srcIPField Packet.srcip
  dstip : ds.dstip.Possible dstIPField Packet.dstip
  srcport : ds.srcport.Possible srcPortField Packet.srcport
  dstport : ds.dstport.Possible dstPortField Packet.dstport
  dns : ds.dns.Possible
  reply : ds.reply.Possible

end Sw

end DnsAdtm
