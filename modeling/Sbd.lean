import Sbd.Basic
import Sbd.Servants
import Sbd.ServantList
import Sbd.LinkedRecords
import Sbd.Reports
import Sbd.Inquisitor
import Sbd.Emits
import Sbd.Records
import Sbd.Exiting
import Sbd.Quorum
import Sbd.QuorumRule
import Sbd.Startup
import Sbd.Respawn
import Sbd.Messenger
import Sbd.Mailbox
import Sbd.Children
import Sbd.Honest
import Sbd.Kills
import Sbd.Commands
import Sbd.Node
