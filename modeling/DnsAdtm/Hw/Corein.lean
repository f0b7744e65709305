/-
# `Hw.Corein` — `i.vhd`

The core input processor.  One step is one clock period: at the rising edge the
process `rcv` reads the registers and assigns `sin`, `rd`, `f`, the variables and
the output ports; at the falling edge `s <= sin`.  At a rising edge `sin` equals
`s` in every field the process drives, so a period is a function of the registers
and the inputs, and `sin` is not kept apart.

The one field of `istate_t` the process does not drive is `ahv`: `sin.ahv` is wired
to `out_data` of the hash unit, so `s.ahv` lags that by one period.  It is the
field `ahv` of `Core` here, next to the record `s`.

    rcv        one period of the process, with the hash unit's wires as inputs
    cycle      one period of the entity: `rcv` and the hash unit on one clock

Index and range checks are not part of the step: a counter is a `Nat`, a list
is read through `FilterList.at`, and a length taken from a packet is stored as it
comes.  The seven list stages of the filter route, the fourteen list states of
the query and admin routes and the four area comparisons are each one definition,
applied in every member to the names and bounds of that member.
-/
import DnsAdtm.Hw.Common
import DnsAdtm.Hw.Siphasher

namespace DnsAdtm.Hw

/-- `state_t` of `corein`. -/
inductive CoreState where
  | idle
  | read | checkAdmin | checkQuery
  -- query stages
  | replyQueryHeader
  | replyQuerySrcMACMeta | replyQuerySrcMACList
  | replyQueryDstMACMeta | replyQueryDstMACList
  | replyQuerySrcIPMeta | replyQuerySrcIPList
  | replyQueryDstIPMeta | replyQueryDstIPList
  | replyQuerySrcPortMeta | replyQuerySrcPortList
  | replyQueryDstPortMeta | replyQueryDstPortList
  | replyQueryDNSMeta | replyQueryDNSList
  | replyQueryReplyType | replyQueryCountersTot | replyQueryCountersSeg
  -- admin stages
  | startHash | waitHash | hashAuth
  | updateFilterSrcMACMeta | updateFilterSrcMACList
  | updateFilterDstMACMeta | updateFilterDstMACList
  | updateFilterSrcIPMeta | updateFilterSrcIPList
  | updateFilterDstIPMeta | updateFilterDstIPList
  | updateFilterSrcPortMeta | updateFilterSrcPortList
  | updateFilterDstPortMeta | updateFilterDstPortList
  | updateFilterDNSMeta | updateFilterDNSList
  | updateReplyType
  -- filtering stages
  | checkSrcMAC | cmpSrcMAC | filterSrcMACMatch
  | checkDstMAC | cmpDstMAC | filterDstMACMatch
  | checkSrcIP | cmpSrcIP | filterSrcIPMatch
  | checkDstIP | cmpDstIP | filterDstIPMatch
  | checkSrcPort | cmpSrcPort | filterSrcPortMatch
  | checkDstPort | cmpDstPort | filterDstPortMatch
  | checkPkt | cmpPktCheck
  | cmpPktArea32 | cmpPktArea24 | cmpPktArea16 | cmpPktArea8
  | cmpPktDone | filterPkt
  | setDNSReplyHeader | setDNSReplyCount | setDefaultMAC
  | send
  deriving DecidableEq, Repr

/-- `istate_t` without `ahv`. -/
structure IState where
  s : CoreState
  led : BitVec 4
  pc : Nat
  amc : Nat
  aic : Nat
  apc : Nat
  adc : Nat
  fsmc : Nat
  fdmc : Nat
  fsic : Nat
  fdic : Nat
  fspc : Nat
  fdpc : Nat
  fdnsc : Nat
  fpktsc : Nat
  fpktc : Nat
  fpktmf : Bool
  stc : BitVec 64
  sfc : BitVec 64
  smc : BitVec 64
  sic : BitVec 64
  spc : BitVec 64
  deriving DecidableEq, Repr

/-- The variables of process `rcv`. -/
structure PktVars where
  endPtr : Nat
  areaEndPtr : Nat
  itemEndPtr : Nat
  itemPtr : Nat
  deriving DecidableEq, Repr

/-- The registers, variables and output ports that process `rcv` works on. -/
structure Core where
  s : IState
  ahv : BitVec 64
  rd : RcvData
  f : Filter
  siphashStart : Bool
  elRcvAck : Bool
  sndEn : Bool
  pkt : PktVars
  deriving DecidableEq, Repr

/-- What process `rcv` samples: the FIFO's ports and the hash unit's. -/
structure RcvIn where
  elRcvData : RcvData
  elRcvDv : Bool
  siphashReady : Bool
  outData : BitVec 64

/-- The generics of `corein`. -/
structure Generics where
  adminMac : BitVec 48 := 0xffffff350a00
  adminKey : BitVec 128 := 0xdecaface1eadf1a91713440219990927
  queryMac : BitVec 48 := 0xad91be350a00
  normalMac : BitVec 48 := 0x000000350a00
  dnsRcode : BitVec 4 := 0x3

/-! ## The filter route: one list stage -/

/-- What one of the list stages works with: the packet's value, the filter's list,
the stage's own counter, the names of its three states, and what its accepting
exits assign. -/
structure Stage (w : Nat) where
  value : RcvData → BitVec w
  bw : Filter → Bool
  length : Filter → Nat
  list : Filter → FilterList w
  get : IState → Nat
  set : Nat → IState → IState
  check : CoreState
  cmp : CoreState
  hit : CoreState
  pass : IState → IState

variable {w : Nat}

/-- `Check…` -/
def Stage.doCheck (S : Stage w) (f : Filter) (s : IState) : IState :=
  if S.get s = S.length f then
    if S.bw f = false then
      -- exhaust blacklist, no ban
      S.pass s
    else
      -- exhaust whitelist, ban
      { S.set 0 s with s := .idle }
  else
    { S.set (S.get s) s with s := S.cmp }

/-- `Cmp…` -/
def Stage.doCmp (S : Stage w) (rd : RcvData) (f : Filter) (s : IState) : IState :=
  if S.value rd = (S.list f).at (S.get s) then
    { S.set (S.get s) s with s := S.hit }
  else
    { S.set (S.get s + 1) s with s := S.check }

/-- `Filter…Match` -/
def Stage.doMatch (S : Stage w) (f : Filter) (s : IState) : IState :=
  if S.bw f = false then
    -- it's on blacklist
    { S.set 0 s with s := .idle }
  else
    -- it's on whitelist, move on to next step
    S.pass s

def srcMACStage : Stage 48 where
  value := (·.srcMAC)
  bw := (·.srcMACBW)
  length := (·.srcMACLength)
  list := (·.srcMACList)
  get := (·.fsmc)
  set n s := { s with fsmc := n }
  check := .checkSrcMAC
  cmp := .cmpSrcMAC
  hit := .filterSrcMACMatch
  pass s := { s with s := .checkDstMAC, fdmc := 0 }

def dstMACStage : Stage 48 where
  value := (·.dstMAC)
  bw := (·.dstMACBW)
  length := (·.dstMACLength)
  list := (·.dstMACList)
  get := (·.fdmc)
  set n s := { s with fdmc := n }
  check := .checkDstMAC
  cmp := .cmpDstMAC
  hit := .filterDstMACMatch
  pass s := { s with s := .checkSrcIP, smc := s.smc + 1, fsic := 0 }

def srcIPStage : Stage 32 where
  value := (·.srcIP)
  bw := (·.srcIPBW)
  length := (·.srcIPLength)
  list := (·.srcIPList)
  get := (·.fsic)
  set n s := { s with fsic := n }
  check := .checkSrcIP
  cmp := .cmpSrcIP
  hit := .filterSrcIPMatch
  pass s := { s with s := .checkDstIP, fdic := 0 }

def dstIPStage : Stage 32 where
  value := (·.dstIP)
  bw := (·.dstIPBW)
  length := (·.dstIPLength)
  list := (·.dstIPList)
  get := (·.fdic)
  set n s := { s with fdic := n }
  check := .checkDstIP
  cmp := .cmpDstIP
  hit := .filterDstIPMatch
  pass s := { s with s := .checkSrcPort, sic := s.sic + 1, fspc := 0 }

def srcPortStage : Stage 16 where
  value := (·.srcPort)
  bw := (·.srcPortBW)
  length := (·.srcPortLength)
  list := (·.srcPortList)
  get := (·.fspc)
  set n s := { s with fspc := n }
  check := .checkSrcPort
  cmp := .cmpSrcPort
  hit := .filterSrcPortMatch
  pass s := { s with s := .checkDstPort, fdpc := 0 }

def dstPortStage : Stage 16 where
  value := (·.dstPort)
  bw := (·.dstPortBW)
  length := (·.dstPortLength)
  list := (·.dstPortList)
  get := (·.fdpc)
  set n s := { s with fdpc := n }
  check := .checkDstPort
  cmp := .cmpDstPort
  hit := .filterDstPortMatch
  pass s := { s with s := .checkPkt, spc := s.spc + 1, fdnsc := 0 }

/-! ## The filter route: the DNS scan -/

/-- `CmpPktArea32 .. CmpPktArea8`: compare `n` bits of the packet area with `n` bits of
the item, both ending where the variables point. -/
def cmpPktArea (n : Nat) (st : Core) (s : IState) : IState :=
  if st.rd.dnsPkt.extractLsb' (st.pkt.areaEndPtr - n) n =
      (st.f.dnsList.at st.pkt.itemPtr).extractLsb' (st.pkt.itemEndPtr - n) n then
    { s with s := .cmpPktCheck, fpktc := s.fpktc - n }
  else
    { s with s := .cmpPktDone, fpktmf := false }

/-! ## The query and admin routes: one list state -/

/-- A list state: the first entry, the second entry, then on to `next`.  `entry i`
copies entry `i`; `cnt` and `setCnt` are the state's counter. -/
def listState (cnt : Nat) (setCnt : Nat → IState → IState) (entry : Nat → Core → Core)
    (next : CoreState) (o : Core) : Core :=
  if cnt = 0 then { entry 0 o with s := setCnt (cnt + 1) o.s }
  else if cnt = 1 then { entry 1 o with s := setCnt (cnt + 1) o.s }
  else { o with s.s := next }

def setAmc (n : Nat) (s : IState) : IState := { s with amc := n }
def setAic (n : Nat) (s : IState) : IState := { s with aic := n }
def setApc (n : Nat) (s : IState) : IState := { s with apc := n }
def setAdc (n : Nat) (s : IState) : IState := { s with adc := n }

/-- `rd.dnsPkt(hi DOWNTO lo) <= x`. -/
def Core.putPkt {m : Nat} (o : Core) (hi lo : Nat) (x : BitVec m)
    (h : decide (m = hi + 1 - lo) := by exact Eq.refl true) : Core :=
  { o with rd.dnsPkt := put o.rd.dnsPkt hi lo x h }

/-- `rd.dnsPkt(i) <= b`. -/
def Core.putPktBit (o : Core) (i : Nat) (b : Bool) : Core :=
  { o with rd.dnsPkt := putBit o.rd.dnsPkt i b }

/-! ## One period of process `rcv` -/

/-- One clock period of process `rcv`; `o` carries the assignments made so far, and
every read is from the registers `st`. -/
def rcv (g : Generics) (st : Core) (i : RcvIn) : Core :=
  let o := { st with sndEn := false, elRcvAck := false, siphashStart := false, ahv := i.outData }
  match st.s.s with
  | .idle =>
      if i.elRcvDv then { o with s.s := .read } else { o with s.s := .idle }
  | .read =>
      { o with rd := i.elRcvData, elRcvAck := true, s.s := .checkAdmin }
  | .checkAdmin =>
      if st.rd.dstMAC = g.adminMac then
        { o with s.led := 0xf, s.s := .startHash, s.pc := 0 }
      else
        { o with s.s := .checkQuery }
  | .checkQuery =>
      if st.rd.dstMAC = g.queryMac then
        { o with s.s := .replyQueryHeader }
      else
        { o with s.s := .checkSrcMAC, s.stc := st.s.stc + 1, s.fsmc := 0 }

  -- query stages
  | .replyQueryHeader =>
      { o with rd.ipLength := 201, rd.dnsLength := 128, s.s := .replyQuerySrcMACMeta }
  | .replyQuerySrcMACMeta =>
      { (o.putPktBit 0 st.f.srcMACBW).putPkt 2 1 (BitVec.ofNat 2 st.f.srcMACLength) with
        s := { st.s with s := .replyQuerySrcMACList, amc := 0 } }
  | .replyQuerySrcMACList =>
      listState st.s.amc setAmc
        (fun n o => if n = 0 then o.putPkt 50 3 (st.f.srcMACList.at 0)
          else o.putPkt 98 51 (st.f.srcMACList.at 1))
        .replyQueryDstMACMeta o
  | .replyQueryDstMACMeta =>
      { (o.putPktBit 99 st.f.dstMACBW).putPkt 101 100 (BitVec.ofNat 2 st.f.dstMACLength) with
        s := { st.s with s := .replyQueryDstMACList, amc := 0 } }
  | .replyQueryDstMACList =>
      listState st.s.amc setAmc
        (fun n o => if n = 0 then o.putPkt 149 102 (st.f.dstMACList.at 0)
          else o.putPkt 197 150 (st.f.dstMACList.at 1))
        .replyQuerySrcIPMeta o
  | .replyQuerySrcIPMeta =>
      { (o.putPktBit 198 st.f.srcIPBW).putPkt 200 199 (BitVec.ofNat 2 st.f.srcIPLength) with
        s := { st.s with s := .replyQuerySrcIPList, aic := 0 } }
  | .replyQuerySrcIPList =>
      listState st.s.aic setAic
        (fun n o => if n = 0 then o.putPkt 232 201 (st.f.srcIPList.at 0)
          else o.putPkt 264 233 (st.f.srcIPList.at 1))
        .replyQueryDstIPMeta o
  | .replyQueryDstIPMeta =>
      { (o.putPktBit 265 st.f.dstIPBW).putPkt 267 266 (BitVec.ofNat 2 st.f.dstIPLength) with
        s := { st.s with s := .replyQueryDstIPList, aic := 0 } }
  | .replyQueryDstIPList =>
      listState st.s.aic setAic
        (fun n o => if n = 0 then o.putPkt 299 268 (st.f.dstIPList.at 0)
          else o.putPkt 331 300 (st.f.dstIPList.at 1))
        .replyQuerySrcPortMeta o
  | .replyQuerySrcPortMeta =>
      { (o.putPktBit 332 st.f.srcPortBW).putPkt 334 333 (BitVec.ofNat 2 st.f.srcPortLength) with
        s := { st.s with s := .replyQuerySrcPortList, apc := 0 } }
  | .replyQuerySrcPortList =>
      listState st.s.apc setApc
        (fun n o => if n = 0 then o.putPkt 350 335 (st.f.srcPortList.at 0)
          else o.putPkt 366 351 (st.f.srcPortList.at 1))
        .replyQueryDstPortMeta o
  | .replyQueryDstPortMeta =>
      { (o.putPktBit 367 st.f.dstPortBW).putPkt 369 368 (BitVec.ofNat 2 st.f.dstPortLength) with
        s := { st.s with s := .replyQueryDstPortList, apc := 0 } }
  | .replyQueryDstPortList =>
      listState st.s.apc setApc
        (fun n o => if n = 0 then o.putPkt 385 370 (st.f.dstPortList.at 0)
          else o.putPkt 401 386 (st.f.dstPortList.at 1))
        .replyQueryDNSMeta o
  | .replyQueryDNSMeta =>
      { (((o.putPktBit 402 st.f.dnsBW).putPkt 404 403 (BitVec.ofNat 2 st.f.dnsLength)).putPkt
            412 405 (BitVec.ofNat 8 (st.f.endPtr 0))).putPkt
            420 413 (BitVec.ofNat 8 (st.f.endPtr 1)) with
        s := { st.s with s := .replyQueryDNSList, adc := 0 } }
  | .replyQueryDNSList =>
      listState st.s.adc setAdc
        (fun n o => if n = 0 then o.putPkt 548 421 (st.f.dnsList.at 0)
          else o.putPkt 676 549 (st.f.dnsList.at 1))
        .replyQueryReplyType o
  | .replyQueryReplyType =>
      { o.putPktBit 677 st.f.replyType with s := { st.s with s := .replyQueryCountersTot } }
  | .replyQueryCountersTot =>
      { (o.putPkt 741 678 st.s.stc).putPkt 805 742 st.s.sfc with
        rd.dstMAC := g.queryMac
        s := { st.s with s := .replyQueryCountersSeg } }
  | .replyQueryCountersSeg =>
      { ((o.putPkt 869 806 st.s.smc).putPkt 933 870 st.s.sic).putPkt 997 934 st.s.spc with
        s := { st.s with s := .send } }

  -- admin route
  | .startHash => { o with siphashStart := true, s.s := .waitHash }
  | .waitHash =>
      if i.siphashReady then { o with s.s := .hashAuth } else { o with s.s := .waitHash }
  | .hashAuth =>
      if st.ahv = downto st.rd.dnsPkt 1023 960 then
        { o with s.s := .updateFilterSrcMACMeta }
      else
        { o with s.led := 0x8, s.s := .idle }
  | .updateFilterSrcMACMeta =>
      { o with
        f.srcMACBW := st.rd.dnsPkt.getLsbD 0
        f.srcMACLength := (downto st.rd.dnsPkt 2 1 : BitVec 2).toNat
        s := { st.s with s := .updateFilterSrcMACList, amc := 0 } }
  | .updateFilterSrcMACList =>
      listState st.s.amc setAmc
        (fun n o => if n = 0 then
            { o with f.srcMACList := o.f.srcMACList.set 0 (downto st.rd.dnsPkt 50 3) Nat.zero_lt_two }
          else { o with f.srcMACList := o.f.srcMACList.set 1 (downto st.rd.dnsPkt 98 51) Nat.one_lt_two })
        .updateFilterDstMACMeta o
  | .updateFilterDstMACMeta =>
      { o with
        f.dstMACBW := st.rd.dnsPkt.getLsbD 99
        f.dstMACLength := (downto st.rd.dnsPkt 101 100 : BitVec 2).toNat
        s := { st.s with s := .updateFilterDstMACList, amc := 0 } }
  | .updateFilterDstMACList =>
      listState st.s.amc setAmc
        (fun n o => if n = 0 then
            { o with f.dstMACList := o.f.dstMACList.set 0 (downto st.rd.dnsPkt 149 102) Nat.zero_lt_two }
          else { o with f.dstMACList := o.f.dstMACList.set 1 (downto st.rd.dnsPkt 197 150) Nat.one_lt_two })
        .updateFilterSrcIPMeta o
  | .updateFilterSrcIPMeta =>
      { o with
        f.srcIPBW := st.rd.dnsPkt.getLsbD 198
        f.srcIPLength := (downto st.rd.dnsPkt 200 199 : BitVec 2).toNat
        s := { st.s with s := .updateFilterSrcIPList, aic := 0 } }
  | .updateFilterSrcIPList =>
      listState st.s.aic setAic
        (fun n o => if n = 0 then
            { o with f.srcIPList := o.f.srcIPList.set 0 (downto st.rd.dnsPkt 232 201) Nat.zero_lt_two }
          else { o with f.srcIPList := o.f.srcIPList.set 1 (downto st.rd.dnsPkt 264 233) Nat.one_lt_two })
        .updateFilterDstIPMeta o
  | .updateFilterDstIPMeta =>
      { o with
        f.dstIPBW := st.rd.dnsPkt.getLsbD 265
        f.dstIPLength := (downto st.rd.dnsPkt 267 266 : BitVec 2).toNat
        s := { st.s with s := .updateFilterDstIPList, aic := 0 } }
  | .updateFilterDstIPList =>
      listState st.s.aic setAic
        (fun n o => if n = 0 then
            { o with f.dstIPList := o.f.dstIPList.set 0 (downto st.rd.dnsPkt 299 268) Nat.zero_lt_two }
          else { o with f.dstIPList := o.f.dstIPList.set 1 (downto st.rd.dnsPkt 331 300) Nat.one_lt_two })
        .updateFilterSrcPortMeta o
  | .updateFilterSrcPortMeta =>
      { o with
        f.srcPortBW := st.rd.dnsPkt.getLsbD 332
        f.srcPortLength := (downto st.rd.dnsPkt 334 333 : BitVec 2).toNat
        s := { st.s with s := .updateFilterSrcPortList, apc := 0 } }
  | .updateFilterSrcPortList =>
      listState st.s.apc setApc
        (fun n o => if n = 0 then
            { o with f.srcPortList := o.f.srcPortList.set 0 (downto st.rd.dnsPkt 350 335) Nat.zero_lt_two }
          else { o with f.srcPortList := o.f.srcPortList.set 1 (downto st.rd.dnsPkt 366 351) Nat.one_lt_two })
        .updateFilterDstPortMeta o
  | .updateFilterDstPortMeta =>
      { o with
        f.dstPortBW := st.rd.dnsPkt.getLsbD 367
        f.dstPortLength := (downto st.rd.dnsPkt 369 368 : BitVec 2).toNat
        s := { st.s with s := .updateFilterDstPortList, apc := 0 } }
  | .updateFilterDstPortList =>
      listState st.s.apc setApc
        (fun n o => if n = 0 then
            { o with f.dstPortList := o.f.dstPortList.set 0 (downto st.rd.dnsPkt 385 370) Nat.zero_lt_two }
          else { o with f.dstPortList := o.f.dstPortList.set 1 (downto st.rd.dnsPkt 401 386) Nat.one_lt_two })
        .updateFilterDNSMeta o
  | .updateFilterDNSMeta =>
      { o with
        f.dnsBW := st.rd.dnsPkt.getLsbD 402
        f.dnsLength := (downto st.rd.dnsPkt 404 403 : BitVec 2).toNat
        f.dnsItemEndPtr :=
          (o.f.dnsItemEndPtr.set 0 (downto st.rd.dnsPkt 412 405 : BitVec 8).toNat Nat.zero_lt_two).set 1
            (downto st.rd.dnsPkt 420 413 : BitVec 8).toNat Nat.one_lt_two
        s := { st.s with s := .updateFilterDNSList, adc := 0 } }
  | .updateFilterDNSList =>
      listState st.s.adc setAdc
        (fun n o => if n = 0 then
            { o with f.dnsList := o.f.dnsList.set 0 (downto st.rd.dnsPkt 548 421) Nat.zero_lt_two }
          else { o with f.dnsList := o.f.dnsList.set 1 (downto st.rd.dnsPkt 676 549) Nat.one_lt_two })
        .updateReplyType o
  | .updateReplyType =>
      { o with f.replyType := st.rd.dnsPkt.getLsbD 677, s.s := .idle }

  -- filter route
  | .checkSrcMAC => { o with s := srcMACStage.doCheck st.f st.s }
  | .cmpSrcMAC => { o with s := srcMACStage.doCmp st.rd st.f st.s }
  | .filterSrcMACMatch => { o with s := srcMACStage.doMatch st.f st.s }
  | .checkDstMAC => { o with s := dstMACStage.doCheck st.f st.s }
  | .cmpDstMAC => { o with s := dstMACStage.doCmp st.rd st.f st.s }
  | .filterDstMACMatch => { o with s := dstMACStage.doMatch st.f st.s }
  | .checkSrcIP => { o with s := srcIPStage.doCheck st.f st.s }
  | .cmpSrcIP => { o with s := srcIPStage.doCmp st.rd st.f st.s }
  | .filterSrcIPMatch => { o with s := srcIPStage.doMatch st.f st.s }
  | .checkDstIP => { o with s := dstIPStage.doCheck st.f st.s }
  | .cmpDstIP => { o with s := dstIPStage.doCmp st.rd st.f st.s }
  | .filterDstIPMatch => { o with s := dstIPStage.doMatch st.f st.s }
  | .checkSrcPort => { o with s := srcPortStage.doCheck st.f st.s }
  | .cmpSrcPort => { o with s := srcPortStage.doCmp st.rd st.f st.s }
  | .filterSrcPortMatch => { o with s := srcPortStage.doMatch st.f st.s }
  | .checkDstPort => { o with s := dstPortStage.doCheck st.f st.s }
  | .cmpDstPort => { o with s := dstPortStage.doCmp st.rd st.f st.s }
  | .filterDstPortMatch => { o with s := dstPortStage.doMatch st.f st.s }
  | .checkPkt =>
      if st.s.fdnsc = st.f.dnsLength then
        if st.f.dnsBW = false then
          -- exhaust blacklist, no ban
          { o with s.s := .setDNSReplyHeader, s.sfc := st.s.sfc + 1 }
        else
          -- exhaust whitelist, ban
          { o with s.s := .idle, s.fpktsc := 0 }
      else
        { o with
          s := { st.s with
            s := .cmpPktCheck
            fpktsc := 0
            fpktc := st.f.endPtr st.s.fdnsc
            fpktmf := false }
          pkt.endPtr := if st.rd.dnsLength > 128 then 1024 else st.rd.dnsLength * 8 }
  | .cmpPktCheck =>
      let o := { o with
        pkt.areaEndPtr := st.s.fpktsc + st.s.fpktc
        pkt.itemEndPtr := st.s.fpktc
        pkt.itemPtr := st.s.fdnsc }
      if st.s.fpktc ≥ 32 then { o with s.s := .cmpPktArea32 }
      else if st.s.fpktc ≥ 24 then { o with s.s := .cmpPktArea24 }
      else if st.s.fpktc ≥ 16 then { o with s.s := .cmpPktArea16 }
      else if st.s.fpktc ≥ 8 then { o with s.s := .cmpPktArea8 }
      else { o with s.s := .cmpPktDone, s.fpktmf := true }
  | .cmpPktArea32 => { o with s := cmpPktArea 32 st st.s }
  | .cmpPktArea24 => { o with s := cmpPktArea 24 st st.s }
  | .cmpPktArea16 => { o with s := cmpPktArea 16 st st.s }
  | .cmpPktArea8 => { o with s := cmpPktArea 8 st st.s }
  | .cmpPktDone =>
      if st.s.fpktmf then
        -- there's a match
        { o with s.s := .filterPkt }
      else if st.s.fpktsc + st.f.endPtr st.s.fdnsc ≥ st.pkt.endPtr then
        -- all check done
        { o with s.s := .checkPkt, s.fdnsc := st.s.fdnsc + 1 }
      else
        -- increment pkt counter
        { o with
          s := { st.s with
            s := .cmpPktCheck
            fpktsc := st.s.fpktsc + 8
            fpktc := st.f.endPtr st.s.fdnsc
            fpktmf := false } }
  | .filterPkt =>
      if st.f.dnsBW = false then
        -- it's on blacklist
        { o with s.s := .idle, s.fdnsc := 0 }
      else
        -- it's on whitelist, move on to next step
        { o with s.s := .setDNSReplyHeader, s.sfc := st.s.sfc + 1 }

  -- the reply
  | .setDNSReplyHeader =>
      if st.f.replyType = false then { o with s.s := .setDefaultMAC }
      else
        { (((((((((o.putPkt 27 24 g.dnsRcode).putPktBit 28 true).putPktBit 29 true).putPktBit
              30 false).putPktBit 31 false).putPktBit 16 false).putPktBit 17 false).putPktBit
              18 true).putPkt 22 19 (0 : BitVec 4)).putPktBit 23 true with
          s := { st.s with s := .setDNSReplyCount } }
  | .setDNSReplyCount =>
      { (((o.putPkt 47 32 (0 : BitVec 16)).putPkt 63 48 (0 : BitVec 16)).putPkt
            79 64 (0 : BitVec 16)).putPkt 95 80 (0 : BitVec 16) with
        rd.ipLength := 130
        rd.dnsLength := 12
        s := { st.s with s := .setDefaultMAC } }
  | .setDefaultMAC =>
      { o with rd.dstMAC := g.normalMac, s.s := .send }
  | .send =>
      { o with
        sndEn := true
        s := { st.s with
          s := .idle
          pc := if st.s.pc = 15 then 0 else st.s.pc + 1
          led := BitVec.ofNat 4 (st.s.pc + 1) } }

/-! ## The entity -/

/-- `corein`: the process and the hash unit it instantiates. -/
structure Corein where
  core : Core
  hash : Siphasher
  deriving DecidableEq, Repr

/-- The input ports of `corein`, clock aside. -/
structure CoreinIn where
  elRcvData : RcvData
  elRcvDv : Bool

/-- What the process samples in a period of the entity. -/
def Corein.rcvIn (st : Corein) (i : CoreinIn) : RcvIn where
  elRcvData := i.elRcvData
  elRcvDv := i.elRcvDv
  siphashReady := st.hash.outReady
  outData := st.hash.outData

/-- What the hash unit samples in a period of the entity: the port map. -/
def Corein.hashIn (g : Generics) (st : Corein) : SiphasherIn where
  inKey := g.adminKey
  inData := downto st.core.rd.dnsPkt 959 0
  inStart := st.core.siphashStart

/-- One clock period of `corein`. -/
def Corein.cycle (g : Generics) (st : Corein) (i : CoreinIn) : Corein where
  core := rcv g st.core (st.rcvIn i)
  hash := st.hash.cycle (st.hashIn g)

/-- The power-on value of `f`. -/
def Filter.init : Filter where
  srcMACBW := true
  srcMACLength := 1
  srcMACList := #v[0xae295f290c00, 0x000000000000]
  dstMACBW := false
  dstMACLength := 1
  dstMACList := #v[0xffffff350a00, 0x000000000000]
  srcIPBW := true
  srcIPLength := 2
  srcIPList := #v[0x00000000, 0xffffa8c0]
  dstIPBW := false
  dstIPLength := 2
  dstIPList := #v[0x04030201, 0xffffffff]
  srcPortBW := true
  srcPortLength := 2
  srcPortList := #v[0x3500, 0x3930]
  dstPortBW := true
  dstPortLength := 2
  dstPortList := #v[0x3500, 0xa05b]
  dnsBW := false
  dnsLength := 2
  dnsItemEndPtr := #v[72, 80]
  dnsList := #v[0x000000000000006d6f632e656c707061, 0x0000000000006d6f632e656c676f6f67]
  replyType := false

/-- The power-on value of `s`. -/
def IState.init : IState where
  s := .idle
  led := 0
  pc := 0
  amc := 0
  aic := 0
  apc := 0
  adc := 0
  fsmc := 0
  fdmc := 0
  fsic := 0
  fdic := 0
  fspc := 0
  fdpc := 0
  fdnsc := 0
  fpktsc := 0
  fpktc := 0
  fpktmf := false
  stc := 0
  sfc := 0
  smc := 0
  sic := 0
  spc := 0

/-- The power-on registers of the entity. -/
def Corein.init : Corein where
  core :=
    { s := .init
      ahv := 0
      rd := .zero
      f := .init
      siphashStart := false
      elRcvAck := false
      sndEn := false
      pkt := ⟨0, 0, 0, 0⟩ }
  hash := .init

theorem Filter.init_inRange : Filter.init.InRange where
  srcMAC := by decide
  dstMAC := by decide
  srcIP := by decide
  dstIP := by decide
  srcPort := by decide
  dstPort := by decide
  dns := by decide
  endPtr_le i := by
    match i with
    | 0 => decide
    | 1 => decide
    | _ + 2 => simp [Filter.endPtr, Filter.init]
  endPtr_dvd i := by
    match i with
    | 0 => decide
    | 1 => decide
    | _ + 2 => simp [Filter.endPtr, Filter.init]

end DnsAdtm.Hw
