import Turnpike.Client.Exchange
import Turnpike.Proofs.Body.Tokens
import Turnpike.Proofs.Connection.Cutoff
import Turnpike.Proofs.Connection.Departure
import Turnpike.Proofs.Connection.Persistence
import Turnpike.Proofs.Connection.Shortfall
import Turnpike.Proofs.Payload.ContentLength
import Turnpike.Proofs.Payload.TransferCoding
import Turnpike.Proofs.Routing.NotFound
import Turnpike.Proofs.Web.Handing
import Turnpike.Text.Uppercase
import Turnpike.Web.Outline
import Turnpike.Proofs.Payload.Acceptance
import Turnpike.Proofs.Connection.Broken
import Turnpike.Proofs.Routing.Order
import Turnpike.Proofs.Web.HeadOnly
import Turnpike.Proofs.Payload.LineEnds
import Turnpike.Proofs.Wire.ResponseWriter
import Turnpike.Proofs.Client.Head
import Turnpike.Proofs.Wire.Target
import Turnpike.Proofs.Client.Request
import Turnpike.Proofs.Connection.Closing
import Turnpike.Proofs.Connection.Expecting
import Turnpike.Proofs.Body.Calls
import Turnpike.Proofs.Connection.Calls
import Turnpike.Proofs.Routing.Parts
import Turnpike.Proofs.Routing.Captured
import Turnpike.Proofs.Routing.Reached
import Turnpike.Proofs.Web.NotAllowed
import Turnpike.Proofs.Routing.Mounted
import Turnpike.Proofs.Connection.Limits
import Turnpike.Proofs.Wire.Orderly
import Turnpike.Proofs.Connection.Visits
