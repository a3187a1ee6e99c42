import Turnpike.Connection.Serve
import Turnpike.Data.Json
import Turnpike.Text.Number

namespace Turnpike

structure ServerConfig where
  /-- The longest body that is buffered; streamed bodies have no limit. -/
  requestMaxSize : Nat
  readBufferSize : Nat
  keepAlive : Bool
  deriving DecidableEq, Repr

namespace ServerConfig

def standard : ServerConfig := ⟨104857600, 8192, true⟩

def shape : Shape := [
  ⟨"request_max_size", .natural Number.wordLimit, some (.natural standard.requestMaxSize)⟩,
  ⟨"read_buffer_size", .natural Number.wordLimit, some (.natural standard.readBufferSize)⟩,
  ⟨"keep_alive", .boolean, some (.boolean standard.keepAlive)⟩]

def ofValues? : List Value → Option ServerConfig
  | [.natural requestMaxSize, .natural readBufferSize, .boolean keepAlive] =>
    some ⟨requestMaxSize, readBufferSize, keepAlive⟩
  | _ => none

def ofJson (text : String) : Except Json.Flaw ServerConfig := do
  let values ← Json.record shape (Bytes.ofText text)
  match ofValues? values with
  | some config => .ok config
  | none => .error .wrongShape

def toJson (config : ServerConfig) : String :=
  "\x7b\"request_max_size\":" ++ toString config.requestMaxSize ++
    ",\"read_buffer_size\":" ++ toString config.readBufferSize ++
    ",\"keep_alive\":" ++ toString config.keepAlive ++ "\x7d"

def connection (config : ServerConfig) : ConnectionConfig := ⟨config.readBufferSize, config.keepAlive⟩

end ServerConfig

end Turnpike
