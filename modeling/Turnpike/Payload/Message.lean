import Turnpike.Payload.Item
import Turnpike.Payload.Size

namespace Turnpike

inductive Message (η : Type) where
  | head (head : η) (size : PayloadSize)
  | item (item : PayloadItem)
  deriving Repr

end Turnpike
