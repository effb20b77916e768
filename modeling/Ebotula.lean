import Ebotula.Laws.AccountList
import Ebotula.Laws.AccountRemoval
import Ebotula.Laws.ArgumentInPlace
import Ebotula.Laws.BanMask
import Ebotula.Laws.CommandGrammar
import Ebotula.Laws.Delivery
import Ebotula.Laws.Escalation
import Ebotula.Laws.Flood
import Ebotula.Laws.Greeting
import Ebotula.Laws.Joining
import Ebotula.Laws.LineBuffer
import Ebotula.Laws.LostUpdates
import Ebotula.Laws.Masters
import Ebotula.Laws.ModePairing
import Ebotula.Laws.ModeProtection
import Ebotula.Laws.ModeRefusals
import Ebotula.Laws.NamesReply
import Ebotula.Laws.NickChange
import Ebotula.Laws.OnlyMaster
import Ebotula.Laws.Origins
import Ebotula.Laws.PasswordLog
import Ebotula.Laws.QueueIterator
import Ebotula.Laws.ReceivedLines
import Ebotula.Laws.RecordRoundTrip
import Ebotula.Laws.Registration
import Ebotula.Laws.SessionOrder
import Ebotula.Laws.SharedSettings
import Ebotula.Laws.ThreeModes
import Ebotula.Laws.Timing
import Ebotula.Laws.Tools
