import BetProcessor.RequestForms
import BetProcessor.Routes
import BetProcessor.RustMoney
import BetProcessor.RegistryLedger

namespace BetProcessor
set_option autoImplicit true
open Txn
open Codec

section
variable {V db : Db} {c : Call} {b : Int} {action : ProcessAction} {svc : Service}

end

end BetProcessor
