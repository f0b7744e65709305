import DnsAdtm.Lib.Bits
import DnsAdtm.Lib.Machine
import DnsAdtm.Hw.Common
import DnsAdtm.Hw.Siphasher
import DnsAdtm.Hw.SiphasherRun
import DnsAdtm.Sw.Siphash
import DnsAdtm.SiphashAgree
import DnsAdtm.Hw.Corein
import DnsAdtm.Hw.CoreinScan
import DnsAdtm.Hw.CoreinVerdict
import DnsAdtm.Hw.FilterCodec
import DnsAdtm.Hw.CoreinAuth
import DnsAdtm.Hw.CoreinAdmin
import DnsAdtm.Sw.Fpga
import DnsAdtm.Sw.FpgaFilter
import DnsAdtm.Sw.FpgaProber
import DnsAdtm.Hw.MacRcv
import DnsAdtm.Hw.MacRcvRun
import DnsAdtm.Hw.MacRcvFrame
import DnsAdtm.AdminAgree
import DnsAdtm.Hw.MacRcvReject
import DnsAdtm.PortMeaning
import DnsAdtm.Hw.CoreinQuery
import DnsAdtm.Hw.Coreout
import DnsAdtm.Hw.MacSnd
import DnsAdtm.Hw.MacSndRun
import DnsAdtm.Hw.Processors
import DnsAdtm.ProbeAgree
import DnsAdtm.Sw.ProbeCheck
import DnsAdtm.Hw.Reply
import DnsAdtm.Lib.OnesSum
import DnsAdtm.Hw.HeaderFields
import DnsAdtm.Hw.ReplyContent
import DnsAdtm.Hw.Loopback
import DnsAdtm.Hw.Statistics
import DnsAdtm.Hw.Fifo
import DnsAdtm.Hw.FifoOrder
import DnsAdtm.Lib.BoundedList
import DnsAdtm.Sw.AdminCommands
import DnsAdtm.Sw.AdminTidy
import DnsAdtm.Hw.CoreinRange
import DnsAdtm.DnsSearch
import DnsAdtm.Sw.ProbeFailure
import DnsAdtm.Lib.FieldScan
import DnsAdtm.Sw.AddressParse
import DnsAdtm.Sw.EditLists
import DnsAdtm.Sw.ContentForm
import DnsAdtm.Hw.CoreinReturn
import DnsAdtm.Hw.MacRcvLength
import DnsAdtm.Sw.Sender
import DnsAdtm.Lib.Crc
import DnsAdtm.Sw.Crc32Checker
import DnsAdtm.CrcAgree
import DnsAdtm.Sw.CheckerMain
import DnsAdtm.Sw.BitWriter
import DnsAdtm.Sw.Dispatch
import DnsAdtm.Sw.AdminBuilder
import DnsAdtm.BuilderAgree
import DnsAdtm.Lib.Backlog
import DnsAdtm.Hw.CoreinTime
import DnsAdtm.Hw.MacSndTime
import DnsAdtm.Hw.Main
import DnsAdtm.Hw.LineRate
import DnsAdtm.Hw.FifoLoad
import DnsAdtm.Lib.Server
import DnsAdtm.Hw.Device
import DnsAdtm.Hw.RcvLoad
import DnsAdtm.Hw.SndLoad
import DnsAdtm.Hw.Overflow
import DnsAdtm.Hw.LineOrder
import DnsAdtm.Hw.MainDevice
import DnsAdtm.Hw.MainLive
import DnsAdtm.Hw.Wire
import DnsAdtm.HostFrame
import DnsAdtm.FilterMeaning
import DnsAdtm.AdminHost
import DnsAdtm.AdminProtocol
import DnsAdtm.AdminCheck
import DnsAdtm.AdminBoard
import DnsAdtm.AdminView
import DnsAdtm.Validation
import DnsAdtm.ValidationBoard
import DnsAdtm.ValidationVerdict
import DnsAdtm.ValidationSuites
