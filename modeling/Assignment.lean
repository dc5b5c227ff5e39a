import Assignment.Lib.Varint
import Assignment.Lib.Buffer
import Assignment.Lib.Utf8
import Assignment.Lib.Runs
import Assignment.Lib.Blocks
import Assignment.Lib.Istream
import Assignment.Lib.Ostream
import Assignment.Runtime
import Assignment.Reference
import Assignment.Merge
import Assignment.Socket.Message
import Assignment.Socket.Server
import Assignment.Socket.Client
import Assignment.Socket.Network
import Assignment.Socket.Termination
import Assignment.Socket.Delivery
import Assignment.Socket.Soundness
import Assignment.Socket.Uninitialised
import Assignment.Socket.Accept
import Assignment.Socket.Separation
import Assignment.Socket.Exclusion
import Assignment.Socket.Drain
import Assignment.Socket.Conversation
import Assignment.Socket.Descriptors
import Assignment.Socket.Length
import Assignment.Socket.Transmitted
import Assignment.ProtoBuff.Library
import Assignment.ProtoBuff.Fields
import Assignment.ProtoBuff.Person
import Assignment.ProtoBuff.AddressBook
import Assignment.ProtoBuff.MergeFrom
import Assignment.ProtoBuff.Readable
import Assignment.ProtoBuff.Prompt
import Assignment.ProtoBuff.Dialogue
import Assignment.ProtoBuff.ListPeople
import Assignment.ProtoBuff.AddPerson
import Assignment.ProtoBuff.Store
import Assignment.ProtoBuff.Unique
import Assignment.ProtoBuff.History
import Assignment.ProtoBuff.Truncated
import Assignment.ProtoBuff.Concurrent
import Assignment.Lib.Rounding
import Assignment.Wmi.Script
import Assignment.Lib.Shell
import Assignment.GetOsVersion.OsVersion
import Assignment.GetOsVersion.HostList
import Assignment.GetOsVersion.Reports
import Assignment.Lib.CString
import Assignment.Lib.Matcher
import Assignment.Sshpass.Main
import Assignment.Sshpass.Options
import Assignment.Sshpass.Prompts
import Assignment.Winexe.Service
import Assignment.Winexe.Client
import Assignment.Winexe.System
import Assignment.Winexe.Messages
import Assignment.Winexe.Stage
import Assignment.Winexe.Dialogue
import Assignment.Winexe.Output
import Assignment.Winexe.Progress
import Assignment.Winexe.Completion
import Assignment.Winexe.Credentials
import Assignment.Winexe.Runas
