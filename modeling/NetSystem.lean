import NetSystem.Run
import NetSystem.MemRead
import NetSystem.Countdown
import NetSystem.FilterText
import NetSystem.StableSort
import NetSystem.MinScan
import NetSystem.Reshape
import NetSystem.BitPrefix
import NetSystem.Criteria
import NetSystem.BrgrFrame
import NetSystem.BrgrHandler
import NetSystem.BrgrBits
import NetSystem.BrgrTunnels
import NetSystem.BrgrFailure
import NetSystem.BrgAgreement
import NetSystem.BrgrShell
import NetSystem.IpFrames
import NetSystem.BrgrDecode
import NetSystem.LinkTrace
import NetSystem.GreHandler
import NetSystem.GreTunnels
import NetSystem.GreDecode
import NetSystem.PacketReads
import NetSystem.LinkOrder
import NetSystem.IfaceSelect
import NetSystem.CsmaModel
import NetSystem.CsmaQueue
import NetSystem.CsmaArrivals
import NetSystem.CsmaAirtime
import NetSystem.CsmaCells
import NetSystem.CsmaWindow
import NetSystem.CsmaProgress
import NetSystem.WalkModel
import NetSystem.WalkInside
import NetSystem.WalkLoop
import NetSystem.CapSessions
import NetSystem.CapFrames
import NetSystem.CapRadiotap
import NetSystem.CapComplete
import NetSystem.CapReport
import NetSystem.CapRetransmit
import NetSystem.CapRate
import NetSystem.RouteLpm
import NetSystem.RouteLab2
import NetSystem.TablePrefix
import NetSystem.TableTree
import NetSystem.TableIter
import NetSystem.TableRuns
import NetSystem.BgpPath
import NetSystem.BgpSelect
import NetSystem.BgpStable
import NetSystem.BgpRib
import NetSystem.BgpInv
import NetSystem.BgpRuns
import NetSystem.BgpOutcome
import NetSystem.StaMac
import NetSystem.StaEffect
import NetSystem.StaCandidates
import NetSystem.StaAdmission
import NetSystem.StaHandoff
import NetSystem.StaDisassoc
import NetSystem.StaTimers
import NetSystem.StaAsserts
import NetSystem.StaProgress
import NetSystem.StaLink
import NetSystem.MimoModel
import NetSystem.MimoLink
import NetSystem.Slicer
import NetSystem.BitErrors
import NetSystem.MimoNoise
