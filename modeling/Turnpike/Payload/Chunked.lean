import Turnpike.Payload.Item
import Turnpike.Text.Number

/-!
Bodies in chunked transfer coding.

```text
chunked-body = *chunk last-chunk trailer-section CRLF
chunk        = size-line chunk-data CRLF
size-line    = 1*HEXDIG *blank [ ";" *(any but CR and LF) ] CRLF
last-chunk   = size line of a zero
```

Framing is read one octet at a time; chunk data is handed out as far as it has arrived, so one chunk
on the wire may become several pieces.
-/

namespace Turnpike

/-- What is expected next; a size carried along is that of the chunk being read. -/
inductive ChunkedDecoder where
  | sizeStart
  | size (octets : Nat)
  | sizeBlank (octets : Nat)
  | extension (octets : Nat)
  | sizeLf (octets : Nat)
  /-- The octets still to come of the chunk. -/
  | data (octets : Nat)
  | dataCr
  | dataLf
  /-- A trailer line or the line end that closes the body. -/
  | trailerStart
  | trailer
  | trailerLf
  | endLf
  | done
  deriving DecidableEq, Repr

namespace ChunkedDecoder

def start : ChunkedDecoder := .sizeStart

/-- What a fault says the decoder was about to read. -/
def place : ChunkedDecoder → String
  | .sizeStart | .size _ => "Size"
  | .sizeBlank _ => "SizeLws"
  | .extension _ => "Extension"
  | .sizeLf _ => "SizeLf"
  | .data _ => "Data"
  | .dataCr => "DataCr"
  | .dataLf => "DataLf"
  | .trailerStart => "TrailerStart"
  | .trailer => "Trailer"
  | .trailerLf => "TrailerLf"
  | .endLf => "EndLf"
  | .done => "Done"

inductive Flaw where
  | sizeOverflow
  | sizeMissing
  | bareLineFeed
  | unexpected (b : Byte) (place : String)
  deriving DecidableEq, Repr

def twoHexDigits (b : Byte) : String :=
  let digits := Nat.toDigits 16 b.toNat
  String.ofList (if digits.length < 2 then '0' :: digits else digits)

def Flaw.message : Flaw → String
  | .sizeOverflow => "chunk size overflow"
  | .sizeMissing => "missing chunk size"
  | .bareLineFeed => "bare LF in chunk extension"
  | .unexpected b place => s!"unexpected byte 0x{twoHexDigits b} in chunked body while in {place}"

def Flaw.fault (flaw : Flaw) : RequestFault := .invalidBody flaw.message

def addDigit (octets digit : Nat) : Except Flaw ChunkedDecoder :=
  if 16 * octets + digit < Number.wordLimit then .ok (.size (16 * octets + digit))
  else .error .sizeOverflow

/-- What may follow the digits of a size, blanks after them included. -/
def afterSize (decoder : ChunkedDecoder) (octets : Nat) (b : Byte) : Except Flaw ChunkedDecoder :=
  if b.isBlank then .ok (.sizeBlank octets)
  else if b = Byte.semicolon then .ok (.extension octets)
  else if b = Byte.cr then .ok (.sizeLf octets)
  else .error (.unexpected b decoder.place)

/-- Exactly one octet fits here. -/
def only (decoder : ChunkedDecoder) (wanted : Byte) (next : ChunkedDecoder) (b : Byte) :
    Except Flaw ChunkedDecoder :=
  if b = wanted then .ok next else .error (.unexpected b decoder.place)

def step (decoder : ChunkedDecoder) (b : Byte) : Except Flaw ChunkedDecoder :=
  match decoder with
  | .sizeStart =>
    match b.hexValue? with
    | some digit => .ok (.size digit)
    | none => .error .sizeMissing
  | .size octets =>
    match b.hexValue? with
    | some digit => addDigit octets digit
    | none => decoder.afterSize octets b
  | .sizeBlank octets => decoder.afterSize octets b
  | .extension octets =>
    if b = Byte.cr then .ok (.sizeLf octets)
    else if b = Byte.lf then .error .bareLineFeed
    else .ok (.extension octets)
  | .sizeLf octets => decoder.only Byte.lf (if octets = 0 then .trailerStart else .data octets) b
  | .dataCr => decoder.only Byte.cr .dataLf b
  | .dataLf => decoder.only Byte.lf .sizeStart b
  | .trailerStart => .ok (if b = Byte.cr then .endLf else .trailer)
  | .trailer => .ok (if b = Byte.cr then .trailerLf else .trailer)
  | .trailerLf => decoder.only Byte.lf .trailerStart b
  | .endLf => decoder.only Byte.lf .done b
  | .data _ | .done => .error (.unexpected b decoder.place)

/-- Where a chunk stands once `taken` octets of its data are handed out. -/
def afterData (octets taken : Nat) : ChunkedDecoder :=
  if octets ≤ taken then .dataCr else .data (octets - taken)

/-- Reads up to the next piece.  An octet that fits nowhere is consumed. -/
def decode : ChunkedDecoder → Bytes → Decoded ChunkedDecoder PayloadItem
  | .done, bytes => ⟨.ok (some .eof), .done, bytes⟩
  | decoder, [] => ⟨.ok none, decoder, []⟩
  | .data octets, b :: rest =>
    let data := (b :: rest).take octets
    ⟨.ok (some (.chunk data)), afterData octets data.length, (b :: rest).drop octets⟩
  | decoder, b :: rest =>
    match decoder.step b with
    | .ok next => decode next rest
    | .error flaw => ⟨.error flaw.fault, decoder, rest⟩

end ChunkedDecoder

end Turnpike
