import Moot.Inbox
import Moot.Mailbox
import Moot.Transcript
import Moot.StreamSay
import Moot.Hub.Ownership
import Moot.Hub.Routing
import Moot.Hub.Turn
import Moot.Hub.Passage
import Moot.Hub.Memory
import Moot.Hub.Accounting
import Moot.Hub.Handover
import Moot.Hub.Privacy
import Moot.Hub.Handled
import Moot.Hub.Purse
import Moot.Hub.Refusal
import Moot.Hub.Rate
import Moot.Hub.Closing
import Moot.Hub.Rounds
import Moot.Hub.Names
import Moot.Hub.Seat
import Moot.Hub.Freeze
import Moot.Hub.Speech
import Moot.Hub.Observers
import Moot.Hub.Wait
import Moot.Hub.Dedup
import Moot.Hub.Settings
import Moot.Hub.Mailed
import Moot.Hub.Mute
import Moot.Hub.Mirror
import Moot.Spoke.History
import Moot.Spoke.Compose
import Moot.Opencode.Plugin
import Moot.Opencode.Lifecycle
import Moot.Hub.Timer
import Moot.Cli.Log
import Moot.Hub.Pace
import Moot.Hub.Suggestion
import Moot.Spoke.Cells
import Moot.Spoke.Footer
import Moot.Spoke.Keys
import Moot.Hub.Reply
import Moot.Opencode.Render
import Moot.Hub.Alarm
import Moot.Spoke.Typing
import Moot.Server.Outbound
import Moot.Server.Inbound
import Moot.Spoke.Exchange
