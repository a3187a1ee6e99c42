import Turnpike.Message.Head
import Turnpike.Message.Fault
import Turnpike.Payload.Size

/-!
Responses and their bodies: a buffer whose length is known, or a stream that brings a hint of its own,
mostly that nothing is known.
-/

namespace Turnpike

inductive Frame where
  | data (data : Bytes)
  | trailers (fields : Fields)
  deriving DecidableEq, Repr

inductive ResponseBody where
  | buffer (data : Option Bytes)
  | stream (frames : List (Except HttpFault Frame)) (hint : SizeHint := .unknown)
  /-- A stream of what the handler has left unread of its request. -/
  | unread

namespace ResponseBody

def empty : ResponseBody := .buffer none

/-- No data is no body. -/
def ofBytes (data : Bytes) : ResponseBody := .buffer (if data.isEmpty then none else some data)

def ofText (text : String) : ResponseBody := .ofBytes (Bytes.ofText text)

/-- The stream of what is left of a request body once nobody sends it any more. -/
def ofAnswers (answers : List (Except RequestFault Bytes)) : ResponseBody :=
  .stream (answers.map fun answer => match answer with
    | .ok data => .ok (.data data)
    | .error fault => .error (.request fault))

def frames : ResponseBody → List (Except HttpFault Frame)
  | .buffer data => (data.map fun data => Except.ok (Frame.data data)).toList
  | .stream frames _ => frames
  | .unread => []

/-- A stream does not know that it is over before it is asked. -/
def isEnded : ResponseBody → Bool
  | .buffer data => data.isNone
  | .stream _ _ | .unread => false

def hint : ResponseBody → SizeHint
  | .buffer data => .ofExact ((data.map List.length).getD 0)
  | .stream _ hint => hint
  | .unread => .unknown

def drained : ResponseBody → ResponseBody
  | .buffer _ => .buffer none
  | .stream _ hint => .stream [] hint
  | .unread => .stream []

end ResponseBody

structure Response where
  head : ResponseHead
  body : ResponseBody

namespace Response

def ofStatus (status : Status) (body : ResponseBody) : Response :=
  ⟨⟨status, .http11, .empty⟩, body⟩

instance : Inhabited Response := ⟨.ofStatus .ok .empty⟩

def withField (response : Response) (name : FieldName) (value : Bytes) : Response :=
  { response with
    head := { response.head with fields := response.head.fields.insert name value } }

/-- Puts what the handler has left unread in the place of `unread`. -/
def forwarding (response : Response) (left : ResponseBody) : Response :=
  match response.body with
  | .unread => { response with body := left }
  | _ => response

def plainText : Bytes := Bytes.ofText "text/plain; charset=utf-8"

def ofText (status : Status) (text : String) : Response :=
  (ofStatus status (.ofText text)).withField FieldName.contentType plainText

end Response

end Turnpike
