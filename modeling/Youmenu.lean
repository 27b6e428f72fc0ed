import Youmenu.Lib.Blocks
import Youmenu.Lib.Ring
import Youmenu.Lib.Bytes
import Youmenu.Lib.Cbc
import Youmenu.Lib.Circular
import Youmenu.Lib.Critical
import Youmenu.Lib.Custody
import Youmenu.Lib.Incremental
import Youmenu.Lib.Keyed
import Youmenu.Lib.PrimaryKey
import Youmenu.Lib.Program
import Youmenu.Lib.Records
import Youmenu.Lib.SqlText
import Youmenu.Lib.Transition
import Youmenu.Eventpack.Ringbuffer
import Youmenu.Eventpack.Shell
import Youmenu.Eventpack.Buffer
import Youmenu.Eventpack.Io
import Youmenu.Eventpack.Enqueue
import Youmenu.Eventpack.Reassembly
import Youmenu.Eventpack.Interference
import Youmenu.Eventpack.Bson
import Youmenu.Eventpack.Packet
import Youmenu.Eventpack.Elements
import Youmenu.Eventpack.Request
import Youmenu.Eventpack.Sending
import Youmenu.Eventpack.SendQueues
import Youmenu.Eventpack.Queue
import Youmenu.Eventpack.ThreadPool
import Youmenu.Eventpack.Dispatch
import Youmenu.Eventpack.Ownership
import Youmenu.Eventpack.Events
import Youmenu.Eventpack.Legible
import Youmenu.Eventpack.Push
import Youmenu.Eventpack.Cert
import Youmenu.Eventpack.Handshake
import Youmenu.Eventpack.Refusal
import Youmenu.Eventpack.Shutdown
import Youmenu.Eventpack.Limit
import Youmenu.Eventpack.CipherInput
import Youmenu.Eventpack.Admission
import Youmenu.Eventpack.Lengths
import Youmenu.Eventpack.Encoding
import Youmenu.Eventpack.Responses
import Youmenu.Eventpack.QueueCodes
import Youmenu.Eventpack.EnqueueCodes
import Youmenu.Eventpack.Handles
import Youmenu.Eventpack.ClientLoss
import Youmenu.Server.Session
import Youmenu.Server.Handlers
import Youmenu.Server.Strings
import Youmenu.Server.Accounts
import Youmenu.Server.References
import Youmenu.Server.Threads
import Youmenu.Server.Permission
import Youmenu.Server.Table
import Youmenu.Server.Disconnects
import Youmenu.Server.Login
import Youmenu.Server.Runs
import Youmenu.Server.Expiry
import Youmenu.Server.Passwords
import Youmenu.Server.Profile
import Youmenu.Server.Spelling
import Youmenu.Server.Refusals
import Youmenu.Server.Bookings
import Youmenu.Server.Sql
import Youmenu.Server.Sha
import Youmenu.Server.Connections
import Youmenu.Server.Provider
import Youmenu.Server.Cursor
import Youmenu.Server.Sqlite
import Youmenu.Server.SessionList
import Youmenu.Server.Records
import Youmenu.Server.Authentication
import Youmenu.Server.Service
import Youmenu.Client.Lists
import Youmenu.Client.Codecs
import Youmenu.Client.Requests
import Youmenu.Client.Sessions
import Youmenu.Utils.ListHead
import Youmenu.Utils.ListLoops
import Youmenu.Lib.Refinement
import Youmenu.Server.Functions
import Youmenu.Server.Layers
