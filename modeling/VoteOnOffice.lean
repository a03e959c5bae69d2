import VoteOnOffice.Lib.Lineage
import VoteOnOffice.Lib.Machine
import VoteOnOffice.Lib.Relay
import VoteOnOffice.Cloud.Document
import VoteOnOffice.Cloud.Database
import VoteOnOffice.Cloud.Reference
import VoteOnOffice.App.Closure
import VoteOnOffice.App.VoteViewModel
import VoteOnOffice.App.MainViewModel
import VoteOnOffice.App.AddVoteViewModel
import VoteOnOffice.App.System
import VoteOnOffice.App.SignModel
import VoteOnOffice.App.Session
import VoteOnOffice.Taps.Path
import VoteOnOffice.Taps.Step
import VoteOnOffice.Taps.Replay
import VoteOnOffice.Taps.Rounds
import VoteOnOffice.Taps.Done
import VoteOnOffice.Taps.Alone
import VoteOnOffice.Records.Reachable
import VoteOnOffice.Records.Lifetime
import VoteOnOffice.Lib.Cause
import VoteOnOffice.Records.Causes
import VoteOnOffice.Records.Shown
import VoteOnOffice.Ballots.DoubleTap
import VoteOnOffice.Ballots.HalfDone
import VoteOnOffice.Ballots.Independent
import VoteOnOffice.Ballots.OneTap
import VoteOnOffice.Ballots.StaleList
import VoteOnOffice.Ballots.Tally
import VoteOnOffice.Ballots.Bounded
import VoteOnOffice.Screens.AddVote
import VoteOnOffice.Screens.Cascade
import VoteOnOffice.Screens.DeleteRow
import VoteOnOffice.Screens.MainList
import VoteOnOffice.Screens.Navigation
import VoteOnOffice.Screens.OneRefresh
import VoteOnOffice.Accounts.Forgotten
import VoteOnOffice.Accounts.HalfAccount
import VoteOnOffice.Accounts.Remembered
import VoteOnOffice.Accounts.Backed
import VoteOnOffice.Accounts.Reported
import VoteOnOffice.Lib.Registry
import VoteOnOffice.Rx.Bag
import VoteOnOffice.Rx.Hub
import VoteOnOffice.Rx.Subject
import VoteOnOffice.Rx.Wiring
import VoteOnOffice.Screens.Tables
import VoteOnOffice.Lib.Matching
import VoteOnOffice.App.World
import VoteOnOffice.Devices.Loose
import VoteOnOffice.Devices.InSystem
import VoteOnOffice.Devices.Authentic
import VoteOnOffice.Devices.FirstVote
import VoteOnOffice.Devices.Stranded
import VoteOnOffice.Devices.Crashes
