import StudyTips.EndAround
import StudyTips.Bytes
import StudyTips.Loop
import StudyTips.Header
import StudyTips.RawUdp
import StudyTips.Tlv
import StudyTips.FilterRoute
import StudyTips.GetRoute
import StudyTips.ReplySafety
import StudyTips.ReplyVerdict
import StudyTips.CString
import StudyTips.Ambient
import StudyTips.Fgets
import StudyTips.Getopt
import StudyTips.Request
import StudyTips.Serial
import StudyTips.Tsn
import StudyTips.Mixing
import StudyTips.Hash
import StudyTips.ChecksumField
import StudyTips.Csum
import StudyTips.ReadLoops
import StudyTips.Ipv4Header
import StudyTips.ChecksumBound
import StudyTips.Horner
import StudyTips.HashSums
import StudyTips.Calendar
import StudyTips.Timing
import StudyTips.PlayMusic
import StudyTips.Detect
import StudyTips.FileFds
import StudyTips.BitField
import StudyTips.BitIncr
import StudyTips.CustomSignal
import StudyTips.CustomSignalRuns
import StudyTips.RawUdpMain
import StudyTips.RawAll
import StudyTips.TlvPack
import StudyTips.NetlinkWrite
import StudyTips.RouteQuery
import StudyTips.Protocol
import StudyTips.SftpDir
import StudyTips.SftpDirRuns
import StudyTips.PyInt
import StudyTips.PlayArgs
import StudyTips.Stdio
import StudyTips.Printf
import StudyTips.Cap
