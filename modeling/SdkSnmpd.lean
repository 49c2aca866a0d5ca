import SdkSnmpd.Lib.Memory
import SdkSnmpd.Lib.Scan
import SdkSnmpd.Lib.Run
import SdkSnmpd.Lib.Radix
import SdkSnmpd.Lib.Ber
import SdkSnmpd.Lib.TwosComplement
import SdkSnmpd.Lib.Groups
import SdkSnmpd.Lib.Slots
import SdkSnmpd.Lib.Backfill
import SdkSnmpd.Lib.Successor
import SdkSnmpd.Lib.Sweep
import SdkSnmpd.Lib.Rows
import SdkSnmpd.Lib.Cursor
import SdkSnmpd.Lib.Maintains
import SdkSnmpd.Lib.Fields
import SdkSnmpd.Basic
import SdkSnmpd.Decode
import SdkSnmpd.Request
import SdkSnmpd.Accepted
import SdkSnmpd.Grammar
import SdkSnmpd.Encode
import SdkSnmpd.OidCodec
import SdkSnmpd.OidReencoding
import SdkSnmpd.RoundTrip
import SdkSnmpd.OidOrder
import SdkSnmpd.Mib
import SdkSnmpd.Handlers
import SdkSnmpd.Walk
import SdkSnmpd.Answers
import SdkSnmpd.Exceptions
import SdkSnmpd.Bulk
import SdkSnmpd.Snmp
import SdkSnmpd.Padding
import SdkSnmpd.Replies
import SdkSnmpd.RequestIntegers
import SdkSnmpd.Access
import SdkSnmpd.VersionOne
import SdkSnmpd.OidText
import SdkSnmpd.MibBuild
import SdkSnmpd.Writes
import SdkSnmpd.MibUpdate
import SdkSnmpd.MibCalls
import SdkSnmpd.UnsignedValues
import SdkSnmpd.Represented
import SdkSnmpd.Udp
import SdkSnmpd.Tcp
import SdkSnmpd.Delivery
import SdkSnmpd.Completion
import SdkSnmpd.EventLoop
import SdkSnmpd.Eviction
import SdkSnmpd.ClientTable
import SdkSnmpd.Serial
import SdkSnmpd.ParserSdk
import SdkSnmpd.IntegerCodec
import SdkSnmpd.OidTransport
import SdkSnmpd.Printf
import SdkSnmpd.OidPrint
import SdkSnmpd.ProcText
import SdkSnmpd.Server
import SdkSnmpd.OidLoops
import SdkSnmpd.Rendering
import SdkSnmpd.Agent
import SdkSnmpd.Control
import SdkSnmpd.BulkWalk
import SdkSnmpd.Conversation
import SdkSnmpd.Exchange
import SdkSnmpd.Isolation
import SdkSnmpd.Session
import SdkSnmpd.Monitoring
import SdkSnmpd.Dump
