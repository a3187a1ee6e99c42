import Turnpike.Message.Head
import Turnpike.Payload.Encoder
import Turnpike.Payload.Message

/-!
Writing responses to a stream: the head with its framing fields, then the pieces of the body.
-/

namespace Turnpike

namespace Fields

/-- The framing field that belongs to a size, whatever framing fields were there before. -/
def framed (fields : Fields) : PayloadSize → Fields
  | .length octets =>
    (fields.erase FieldName.transferEncoding).insert FieldName.contentLength (Number.decimal octets)
  | .chunked =>
    (fields.erase FieldName.contentLength).insert FieldName.transferEncoding (Bytes.ofText "chunked")
  | .empty =>
    (fields.erase FieldName.transferEncoding).insert FieldName.contentLength (Number.decimal 0)

def line (name value : Bytes) : Bytes := name ++ Bytes.ofText ": " ++ value ++ PayloadEncoder.lineEnd

def block (fields : Fields) : Bytes :=
  (fields.toList.flatMap fun pair => line pair.1 pair.2) ++ PayloadEncoder.lineEnd

end Fields

namespace ResponseHead

def statusLine (head : ResponseHead) : Bytes :=
  Bytes.ofText head.version.text ++ [Byte.space] ++ Number.decimal head.status.code ++ [Byte.space] ++
    Bytes.ofText head.status.reason ++ PayloadEncoder.lineEnd

/-- Only heads of HTTP/1.0 and HTTP/1.1 can be written. -/
def encode? (head : ResponseHead) (size : PayloadSize) : Option Bytes :=
  match head.version with
  | .http10 | .http11 => some (head.statusLine ++ (head.fields.framed size).block)
  | _ => none

end ResponseHead

/-- Inside a body the encoder of that body is at hand. -/
structure ResponseWriter where
  body : Option PayloadEncoder
  deriving DecidableEq, Repr

namespace ResponseWriter

inductive Flaw where
  | unfinishedBody
  | noHead
  | unsupportedVersion (version : Version)
  | misfit (flaw : PayloadEncoder.Flaw)
  deriving DecidableEq, Repr

def Flaw.message : Flaw → String
  | .unfinishedBody => "previous response body is not finished"
  | .noHead => "payload item without a response header"
  | .unsupportedVersion version => s!"unsupported http version {version.text}"
  | .misfit flaw => flaw.message

def Flaw.fault (flaw : Flaw) : ResponseFault := .invalidBody flaw.message

def start : ResponseWriter := ⟨none⟩

/-- Forgets the body of the head just written, which is never sent. -/
def discardBody (_ : ResponseWriter) : ResponseWriter := ⟨none⟩

def afterItem (encoder : PayloadEncoder) : ResponseWriter :=
  ⟨if encoder.isFinished then none else some encoder⟩

def encode (writer : ResponseWriter) (message : Message ResponseHead) :
    Except Flaw Bytes × ResponseWriter :=
  match message, writer.body with
  | .head _ _, some _ => (.error .unfinishedBody, writer)
  | .head head size, none =>
    let next : ResponseWriter := ⟨PayloadEncoder.ofSize? size⟩
    match head.encode? size with
    | some bytes => (.ok bytes, next)
    | none => (.error (.unsupportedVersion head.version), next)
  | .item _, none => (.error .noHead, writer)
  | .item item, some encoder =>
    match encoder.encode item with
    | .ok (bytes, next) => (.ok bytes, afterItem next)
    | .error flaw => (.error (.misfit flaw), writer)

end ResponseWriter

end Turnpike
