import Turnpike.Proofs.Connection.Hearing
import Turnpike.Proofs.Routing.Built
import Turnpike.Proofs.Web.Buffered

/-!
Requests on their way to a handler.  The router selects one endpoint, its handler is run at most once,
and how the endpoint was registered decides whether it is given the body or reads it.  Read on to its
end, a body is the one it would have been given.
-/

namespace Turnpike

open BodyChannel

namespace Server

variable {size : PayloadSize} {feed : Feed} {limit : Nat} {head : RequestHead} {dispatch : Dispatch}
  {ran : Option (Except String Response) × BodyReader (BodyChannel Feed)}

/-- The handler of a request is run on this request and this reader, whatever the handler is, and
nothing is done behind it. -/
structure HandsOver (limit : Nat) (head : RequestHead) (dispatch : Dispatch) (size : PayloadSize)
    (feed : Feed) (request : Request) (reader : BodyReader (BodyChannel Feed))
    (ran : Option (Except String Response) × BodyReader (BodyChannel Feed)) : Prop where
  ran : ran = (dispatch.handler request).run reader
  whatever : ∀ handler : WebHandler,
    (invoke limit head { dispatch with handler }).run (.start (BodyChannel.start size feed)) =
      (handler request).run reader

/-- What a request that has found its handler comes to. -/
structure Serves (limit : Nat) (head : RequestHead) (dispatch : Dispatch) (size : PayloadSize)
    (feed : Feed) (ran : Option (Except String Response) × BodyReader (BodyChannel Feed)) : Prop where
  streamed : dispatch.isStream = true →
    HandsOver limit head dispatch size feed (.streaming head dispatch.params)
      (.start (BodyChannel.start size feed)) ran
  buffered : dispatch.isStream = false →
    let body := (PayloadDecoder.ofSize size).drain feed.unread
    body.stop = .eof → body.chunks.flatten.length ≤ limit → ∃ reader,
      HandsOver limit head dispatch size feed
        (.buffered head dispatch.params body.chunks.flatten) reader ran
  spared : dispatch.isStream = false →
    let body := (PayloadDecoder.ofSize size).drain feed.unread
    ¬ (body.stop = .eof ∧ body.chunks.flatten.length ≤ limit) →
      Spares limit head dispatch size feed ran

/-- What the selection of a route comes to for the run of a request. -/
def Follows (server : Server) (mountings : List (Mounting WebHandler)) (head : RequestHead)
    (size : PayloadSize) (feed : Feed)
    (ran : Option (Except String Response) × BodyReader (BodyChannel Feed)) :
    Except WebFault (Route WebHandler) → Prop
  | .ok route =>
    let endpoint := route.item.endpoint
    endpoint ∈ mountings.flatMap Mounting.endpoints ∧
      Serves server.config.requestMaxSize head ⟨endpoint.handler, route.params, endpoint.isStream⟩
        size feed ran
  | .error (.notFound path) =>
    match server.fallback with
    | some handler => Serves server.config.requestMaxSize head ⟨handler, [], false⟩ size feed ran
    | none => ran = (some (.ok (respond (WebFault.notFound path))),
        .start (BodyChannel.start size feed))
  | .error fault => ran = (some (.ok (respond fault)), .start (BodyChannel.start size feed))

theorem endpoint_mem_mountings {server : Server} {mountings : List (Mounting WebHandler)}
    (hbuild : (RouterBuilder.ofMountings mountings).build = .ok server.router) {method : Method}
    {path : String} {route : Route WebHandler}
    (hroute : server.router.dispatch method path = .ok route) :
    route.item.endpoint ∈ mountings.flatMap Mounting.endpoints := by
  have hselected := Router.mem_of_select (Router.dispatch_eq_ok hroute).1
  have hitem := Router.mem_items_of_candidates hbuild hselected
  obtain ⟨_, hregistered, -⟩ := Router.comesFrom_of_build hbuild hitem
  exact RouterBuilder.endpoint_mem_ofMountings hbuild hregistered

end Server

end Turnpike
