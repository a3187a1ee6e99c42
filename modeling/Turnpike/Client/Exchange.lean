import Turnpike.Client.Response
import Turnpike.Web.Server

/-!
A client and a server joined by a pipe: one request, one connection, one response.
-/

namespace Turnpike

namespace Server

def pipeSize : Nat := 65536

def receive (server : Server) (segments : List Bytes) : Received :=
  let run := server.serve segments .silence none
  ⟨run.written, run.outcome != .waiting⟩

def brokenPipe : ClientFault := .io ⟨.brokenPipe, none⟩

/-- A client that asked for an interim response reports a refusal as a fault. -/
def checked (request : ClientRequest) (response : ClientResponse) : Except ClientStop ClientResponse :=
  if request.expects ∧ response.status = .expectationFailed then
    .error (.fault (.expectationFailed response.status (Utf8.readLossy response.body)))
  else .ok response

/-- Sends the body right behind the head. -/
def exchangeAtOnce (server : Server) (request : ClientRequest) : Except ClientStop ClientResponse := do
  let received := server.receive [request.head ++ request.body]
  let (response, _) ← received.response request.method.isHead
  checked request response

/-- Sends the body once the server has asked for it. -/
def exchangeOnDemand (server : Server) (request : ClientRequest) :
    Except ClientStop ClientResponse := do
  let isHead := request.method.isHead
  let (head, rest) ← (server.receive [request.head]).head
  if head.status = .continued then
    let (_, rest) ← (server.receive [request.head, request.body]).head
    let (response, _) ← rest.response isHead
    checked request response
  else
    let (response, _) ← rest.responseAfter head isHead
    checked request response

/-- A head that the pipe cannot hold is more than a server reads. -/
def exchange (server : Server) (request : ClientRequest) : Except ClientStop ClientResponse :=
  match request.flaw with
  | some flaw => .error (.fault (.invalidRequest flaw))
  | none =>
    if request.head.length > pipeSize then .error (.fault brokenPipe)
    else if request.expects && !request.body.isEmpty then server.exchangeOnDemand request
    else server.exchangeAtOnce request

end Server

end Turnpike
