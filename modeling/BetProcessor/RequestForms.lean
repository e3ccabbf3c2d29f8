import BetProcessor.ActionForms

namespace BetProcessor
set_option autoImplicit true
open Codec

section
variable {x : Option Json} {form only : Option Json → Prop} {α : Type}

end

section
variable {overflows : Number → Bool}

end
end BetProcessor
