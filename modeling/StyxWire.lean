import StyxWire.Ago.Collapsed
import StyxWire.Ago.CommandLines
import StyxWire.Ars.Acceptance
import StyxWire.Ars.Agreement
import StyxWire.Ars.ApdMachine
import StyxWire.Ars.BigEndian
import StyxWire.Ars.Bounds
import StyxWire.Ars.Cksum
import StyxWire.Ars.Compile
import StyxWire.Ars.CompiledCksums
import StyxWire.Ars.Conservation
import StyxWire.Ars.Datagram
import StyxWire.Ars.Describe
import StyxWire.Ars.ExplicitFields
import StyxWire.Ars.FieldAccess
import StyxWire.Ars.FieldOrder
import StyxWire.Ars.Fill
import StyxWire.Ars.Grammar
import StyxWire.Ars.HeaderLengths
import StyxWire.Ars.Idempotence
import StyxWire.Ars.InternetCksum
import StyxWire.Ars.Packet
import StyxWire.Ars.Reject
import StyxWire.Ars.RoundTrip
import StyxWire.Ars.RoundTripIpopt
import StyxWire.Ars.RoundTripTcp
import StyxWire.Ars.SkippedLayers
import StyxWire.Ars.Syntax
import StyxWire.Ars.Tcpopt
import StyxWire.Ars.UdpCksum
import StyxWire.Buffers.ByteLists
import StyxWire.Hping.ClockSkew
import StyxWire.Hping.DelayTable
import StyxWire.Hping.Differences
import StyxWire.Hping.FragmentResults
import StyxWire.Hping.Fragments
import StyxWire.Hping.FrameReads
import StyxWire.Hping.IpOptions
import StyxWire.Hping.Lifecycle
import StyxWire.Hping.Output
import StyxWire.Hping.OutputFormat
import StyxWire.Hping.PortLists
import StyxWire.Hping.PortMatching
import StyxWire.Hping.ProbeCksums
import StyxWire.Hping.ProbeLayers
import StyxWire.Hping.ProbeSize
import StyxWire.Hping.Receive
import StyxWire.Hping.RecordRoute
import StyxWire.Hping.SafeTransfer
import StyxWire.Hping.Scan
import StyxWire.Hping.ScanComplete
import StyxWire.Hping.ScanReplies
import StyxWire.Hping.ScanRounds
import StyxWire.Hping.SequenceMatching
import StyxWire.Hping.Signature
import StyxWire.Hping.Stopping
import StyxWire.Hping.TcpTimestamp
import StyxWire.Hping.UniqueReplies
import StyxWire.Hping.WakePipe
import StyxWire.Lib.BitFields
import StyxWire.Lib.Bytes
import StyxWire.Lib.Interrupts
import StyxWire.Lib.Inventory
import StyxWire.Lib.Machine
import StyxWire.Lib.Numerals
import StyxWire.Lib.OnesComplement
import StyxWire.Lib.OptionWalk
import StyxWire.Lib.Outcome
import StyxWire.Lib.Runs
import StyxWire.Lib.Text
import StyxWire.Lib.Tiling
import StyxWire.Sbn.BitOperations
import StyxWire.Sbn.CanonicalResults
import StyxWire.Sbn.Comparison
import StyxWire.Sbn.Exponentiation
import StyxWire.Sbn.Factorial
import StyxWire.Sbn.Gcd
import StyxWire.Sbn.Immediates
import StyxWire.Sbn.NumberParsing
import StyxWire.Sbn.NumberPrinting
import StyxWire.Sbn.OperationRuns
import StyxWire.Sbn.PowerSigns
import StyxWire.Sbn.RandomNumbers
import StyxWire.Sbn.SquareRoot
import StyxWire.Sbn.TextRoundTrip
import StyxWire.Sbn.TruncatedDivision
import StyxWire.Sbn.Values
import StyxWire.Script.BignumCommands
import StyxWire.Script.MpzObjects
import StyxWire.Script.RecvHandlers
import StyxWire.Strings.Hex
import StyxWire.Strings.Strftok
