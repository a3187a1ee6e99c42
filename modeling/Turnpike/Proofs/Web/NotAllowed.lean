import Turnpike.Proofs.Routing.Once
import Turnpike.Proofs.Text.Listing
import Turnpike.Web.Server

/-!
What is allowed where a method is not.  The methods that are named are those of the items which the path
comes to, each once, and these are the methods that the path answers; only `HEAD` is answered without
being named, where it comes to `GET`.
-/

namespace Turnpike

/-- A method as a request can have it. -/
def Method.IsToken (method : Method) : Prop :=
  method.token ≠ [] ∧ ∀ b ∈ method.token, b.isToken = true

instance : DecidablePred Method.IsToken := fun _ => inferInstanceAs (Decidable (_ ∧ _))

namespace Bytes

theorem splitOn_cons_of_ne {separator b : Byte} (h : b ≠ separator) {bytes first : Bytes}
    {parts : List Bytes} (hparts : splitOn separator bytes = first :: parts) :
    splitOn separator (b :: bytes) = (b :: first) :: parts := by
  rw [splitOn_cons, if_neg h, hparts]

theorem trim_cons_space (bytes : Bytes) : trim (Byte.space :: bytes) = trim bytes := by
  rw [trim, trimStart, List.dropWhile_cons_of_pos (by decide)]
  rfl

/-- A list with a blank behind each comma reads as what it is made of. -/
theorem map_trim_splitOn_intercalate {parts : List Bytes} (hsome : parts ≠ [])
    (hfree : ∀ part ∈ parts, Byte.comma ∉ part) (htight : ∀ part ∈ parts, part.IsTight) :
    (splitOn Byte.comma ([Byte.comma, Byte.space].intercalate parts)).map trim = parts := by
  induction parts with
  | nil => contradiction
  | cons part parts ih =>
      obtain ⟨hpart, hfree⟩ := List.forall_mem_cons.mp hfree
      obtain ⟨hends, htight⟩ := List.forall_mem_cons.mp htight
      cases parts with
      | nil => simp [List.intercalate, splitOn_of_not_mem hpart, hends.trim_eq]
      | cons next parts =>
          have hlater := ih (List.cons_ne_nil next parts) hfree htight
          have hjoined : [Byte.comma, Byte.space].intercalate (part :: next :: parts) =
              part ++ Byte.comma :: (Byte.space ::
                [Byte.comma, Byte.space].intercalate (next :: parts)) := by
            simp [List.intercalate]
          obtain ⟨first, others, hsplit⟩ := List.exists_cons_of_ne_nil
            (splitOn_ne_nil Byte.comma ([Byte.comma, Byte.space].intercalate (next :: parts)))
          rw [hsplit] at hlater
          rw [hjoined, splitOn_append hpart, splitOn_cons_of_ne (by decide) hsplit, List.map_cons,
            List.map_cons, trim_cons_space, ← List.map_cons, hlater, hends.trim_eq]

end Bytes

namespace Method

variable {method : Method}

theorem IsToken.comma_not_mem (h : method.IsToken) : Byte.comma ∉ method.token := by
  intro hmem
  have htoken := h.2 _ hmem
  contradiction

theorem IsToken.isTight (h : method.IsToken) : Bytes.IsTight method.token := by
  have hblank : ∀ b ∈ method.token, b.isBlank = false := by
    intro b hb
    have htoken := h.2 b hb
    rw [Byte.isBlank, Bool.or_eq_false_iff, beq_eq_false_iff_ne, beq_eq_false_iff_ne]
    constructor
    · rintro rfl
      contradiction
    · rintro rfl
      contradiction
  exact ⟨fun b hb => hblank b (List.mem_of_mem_head? hb),
    fun b hb => hblank b (List.mem_of_mem_getLast? hb)⟩

end Method

/-- What the `Allow` fields of a response list. -/
def Response.allowed (response : Response) : List Bytes :=
  (response.head.fields.all FieldName.allow).flatMap fun value =>
    (value.splitOn Byte.comma).map Bytes.trim

/-- The answer where a method is not allowed names all that are, in their order. -/
theorem WebFault.allowed_respond {methods : List Method} (hsome : methods ≠ [])
    (htokens : ∀ method ∈ methods, method.IsToken) (method : Method) (path : String) :
    (respond (methodNotAllowed method path methods)).allowed = methods.map Method.token := by
  have hfield : (respond (methodNotAllowed method path methods)).head.fields.all FieldName.allow =
      [allowed methods] := rfl
  have hseparator : Bytes.ofText ", " = [Byte.comma, Byte.space] := by decide
  rw [Response.allowed, hfield, List.flatMap_singleton, allowed, hseparator]
  apply Bytes.map_trim_splitOn_intercalate
  · simpa using hsome
  · exact List.forall_mem_map.mpr fun method hmethod => (htokens method hmethod).comma_not_mem
  · exact List.forall_mem_map.mpr fun method hmethod => (htokens method hmethod).isTight

namespace RouteItem

variable {η : Type} {items : List (RouteItem η)} {params : PathParams} {method : Method}

/-- A method comes to some item if and only if an item takes it, or takes `GET` in the place of
`HEAD`. -/
theorem exists_isChosen_iff : (∃ item, IsChosen items params method item) ↔
    (∃ item ∈ items, item.Takes params method) ∨
      method = .head ∧ ∃ item ∈ items, item.Takes params .get := by
  have hfirst : ∀ other, (∃ item ∈ items, Takes item params other) →
      ∃ item, IsFirst items (fun item => item.Takes params other) item := by
    rintro other ⟨item, hitem, htakes⟩
    have hsome : (items.find? fun item => item.Takes params other).isSome := by
      rw [List.find?_isSome]
      exact ⟨item, hitem, decide_eq_true htakes⟩
    obtain ⟨found, hfound⟩ := Option.isSome_iff_exists.mp hsome
    exact ⟨found, find?_eq_some_iff_isFirst.mp hfound⟩
  constructor
  · rintro ⟨item, hchosen⟩
    cases hchosen with
    | own hown => exact .inl ⟨item, hown.mem, hown.holds⟩
    | get hhead _ hget => exact .inr ⟨hhead, item, hget.mem, hget.holds⟩
  · intro h
    by_cases hown : ∃ item ∈ items, Takes item params method
    · obtain ⟨item, hitem⟩ := hfirst _ hown
      exact ⟨item, .own hitem⟩
    · obtain ⟨hhead, hget⟩ := h.resolve_left hown
      obtain ⟨item, hitem⟩ := hfirst _ hget
      exact ⟨item, .get hhead (fun other hother htakes => hown ⟨other, hother, htakes⟩) hitem⟩

end RouteItem

namespace Router

variable {η : Type} {router : Router η} {method other : Method} {path found : String}
  {allowed : List Method}

theorem dispatch_eq_methodNotAllowed
    (h : router.dispatch method path = .error (.methodNotAllowed other found allowed)) :
    other = method ∧ found = path ∧ allowed = Router.allowed (router.candidates path) := by
  unfold dispatch at h
  simp only at h
  split at h
  · cases h
  · split at h
    · contradiction
    · obtain ⟨rfl, rfl, rfl⟩ := WebFault.methodNotAllowed.inj (Except.error.inj h)
      exact ⟨rfl, rfl, rfl⟩

/-- What is allowed at a path is what an item takes that the path comes to. -/
theorem mem_allowed_candidates : method ∈ Router.allowed (router.candidates path) ↔
    ∃ item ∈ (router.locate path).items, item.Takes (router.locate path).params method := by
  simp only [mem_allowed, candidates, List.mem_filter, and_assoc, RouteItem.Takes]

/-- A path answers the methods that are allowed there, and `HEAD` where it answers `GET`. -/
theorem exists_dispatch_iff : (∃ route, router.dispatch method path = .ok route) ↔
    method ∈ Router.allowed (router.candidates path) ∨
      method = .head ∧ .get ∈ Router.allowed (router.candidates path) := by
  rw [mem_allowed_candidates, mem_allowed_candidates, ← RouteItem.exists_isChosen_iff]
  constructor
  · rintro ⟨route, hroute⟩
    exact ⟨route.item, (dispatch_eq_ok_iff.mp hroute).1⟩
  · rintro ⟨item, hchosen⟩
    exact ⟨⟨item, (router.locate path).params⟩, dispatch_eq_ok_iff.mpr ⟨hchosen, rfl⟩⟩

theorem allowed_ne_nil {builder : RouterBuilder η} (hbuild : builder.build = .ok router)
    (h : router.dispatch method path = .error (.methodNotAllowed method path allowed)) :
    allowed ≠ [] := by
  obtain ⟨⟨item, hitem, haccepts⟩, -⟩ := dispatch_eq_methodNotAllowed_iff.mp ⟨allowed, h⟩
  obtain ⟨items, -, hkeeps, hmethods, -⟩ := apart_of_build hbuild
  obtain ⟨listed, hlisted⟩ := List.exists_mem_of_ne_nil _
    (hmethods item (hkeeps.mem_items.mp (mem_items_of_located hbuild hitem)))
  rw [(dispatch_eq_methodNotAllowed h).2.2]
  exact List.ne_nil_of_mem (mem_allowed_candidates.mpr ⟨item, hitem, haccepts, hlisted⟩)

/-- Where a method is not allowed, those that are named, each of them once, are answered by the path,
and no other method is but `HEAD` where `GET` is named.  The `Allow` field names the same. -/
theorem dispatch_notAllowed {builder : RouterBuilder WebHandler} {router : Router WebHandler}
    {allowed : List Method} {method : Method} {path : String} (hbuild : builder.build = .ok router)
    (h : router.dispatch method path = .error (.methodNotAllowed method path allowed)) :
    (∀ other, (∃ route, router.dispatch other path = .ok route) ↔
      other ∈ allowed ∨ other = .head ∧ .get ∈ allowed) ∧
    allowed.Nodup ∧
    ∃ response : Response, response.head.status = .methodNotAllowed ∧
      ((∀ item ∈ router.items, ∀ listed ∈ item.methods, listed.IsToken) →
        response.allowed = allowed.map Method.token) ∧
      ∀ (server : Server) (head : RequestHead), server.router = router → head.method = method →
        head.uri.pathText = path → server.call head = .done (.ok response) := by
  obtain ⟨-, -, hallowed⟩ := dispatch_eq_methodNotAllowed h
  refine ⟨fun other => hallowed ▸ exists_dispatch_iff, hallowed ▸ nodup_allowed _,
    respond (WebFault.methodNotAllowed method path allowed), rfl, fun htokens => ?named,
    fun server head hrouter hmethod hpath => ?answered⟩
  case named =>
    refine WebFault.allowed_respond (allowed_ne_nil hbuild h) ?_ method path
    intro listed hlisted
    rw [hallowed, mem_allowed_candidates] at hlisted
    obtain ⟨item, hitem, htakes⟩ := hlisted
    exact htokens item (mem_items_of_located hbuild hitem) listed htakes.2
  case answered =>
    have hdispatch : server.dispatch head = .error (.methodNotAllowed method path allowed) := by
      rw [Server.dispatch, hrouter, hmethod, hpath, h]
    rw [Server.call, hdispatch]

/-- The fault that a method comes to at a path, if there is a router. -/
def faultOf (builder : RouterBuilder η) (method : Method) (path : String) : Option WebFault :=
  builder.build.toOption.bind fun router => match router.dispatch method path with
    | .ok _ => none
    | .error fault => some fault

theorem exists_of_faultOf {builder : RouterBuilder η} {method : Method} {path : String}
    {fault : WebFault} (h : faultOf builder method path = some fault) :
    ∃ router, builder.build = .ok router ∧ router.dispatch method path = .error fault := by
  obtain ⟨router, hbuild, hfault⟩ := Option.bind_eq_some_iff.mp h
  refine ⟨router, Except.eq_ok_of_toOption hbuild, ?_⟩
  split at hfault
  · contradiction
  · next hdispatch => rw [hdispatch, Option.some.inj hfault]

/-- Two items of one template, one of them with a method of its own: `GET`, which both list, is named
once. -/
theorem dispatch_notAllowed_of_two :
    let brew : Method := .ofText "BREW"
    let builder : RouterBuilder WebHandler :=
      (RouterBuilder.empty.register (.route "/item/<id:int>" ⟨[.get], .fail "", false⟩)).register
        (.route "/item/<id>" ⟨[.get, brew], .fail "", false⟩)
    ∃ router, builder.build = .ok router ∧
      router.dispatch .post "/item/7" =
        .error (.methodNotAllowed .post "/item/7" [.get, brew]) ∧
      (∃ route, router.dispatch brew "/item/7" = .ok route) ∧
      (¬ ∃ route, router.dispatch .put "/item/7" = .ok route) ∧
      ∃ response : Response, response.allowed = [Method.get.token, brew.token] := by
  intro brew builder
  have hfault : faultOf builder .post "/item/7" =
      some (.methodNotAllowed .post "/item/7" [.get, brew]) := by decide
  obtain ⟨router, hbuild, hdispatch⟩ := exists_of_faultOf hfault
  obtain ⟨hanswered, -, response, -, hnamed, -⟩ := dispatch_notAllowed hbuild hdispatch
  refine ⟨router, hbuild, hdispatch, (hanswered brew).mpr (.inl (by simp)), ?_, response, ?_⟩
  · rw [hanswered]
    decide
  · refine hnamed ?_
    intro item hitem listed hlisted
    obtain ⟨path, hroute, -⟩ := comesFrom_of_build hbuild hitem
    have hroutes : ∀ route ∈ builder.draft.routes, ∀ listed ∈ route.2.methods, listed.IsToken := by
      decide +kernel
    exact hroutes _ hroute listed hlisted

/-- `HEAD` is answered by `GET` and is not named. -/
theorem dispatch_head_unnamed :
    ∃ router : Router Unit,
      (RouterBuilder.empty.register (.route "/a" ⟨[.get], (), false⟩)).build = .ok router ∧
      router.dispatch .post "/a" = .error (.methodNotAllowed .post "/a" [.get]) ∧
      (∃ route, router.dispatch .head "/a" = .ok route) ∧ Method.head ∉ [Method.get] := by
  have hfault : faultOf (RouterBuilder.empty.register (.route "/a" ⟨[.get], (), false⟩)) .post "/a" =
      some (.methodNotAllowed .post "/a" [.get]) := by decide
  obtain ⟨router, hbuild, hdispatch⟩ := exists_of_faultOf hfault
  refine ⟨router, hbuild, hdispatch, exists_dispatch_iff.mpr (.inr ⟨rfl, ?_⟩), by decide⟩
  rw [← (dispatch_eq_methodNotAllowed hdispatch).2.2]
  exact List.mem_singleton.mpr rfl

end Router

end Turnpike
