import Turnpike.Proofs.Connection.Gathering

/-!
What a handler hears of the body that it reads.  However it reads, a body that is complete comes to
it as its data from the front, and as all of its data once it has heard the end.
-/

namespace Turnpike

open BodyChannel

namespace Activity

/-- What gathering all of a body tells. -/
def told (data : Bytes) : BodyReader.Stop → List Answer
  | .ended => [some (.ok data), none]
  | .fault fault => [some (.ok data), some (.error fault)]
  | .tooLong => [some (.ok data)]

/-- The data among some answers. -/
def heardData (heard : List Answer) : Bytes :=
  heard.flatMap fun answer => match answer with
    | some (.ok data) => data
    | some (.error _) | none => []

theorem heardData_append (heard more : List Answer) :
    heardData (heard ++ more) = heardData heard ++ heardData more :=
  List.flatMap_append

/-- Goes on as before and keeps what it has heard.  A body that is given up is not heard any more,
and one that is gathered within a limit may lose a piece. -/
def record (heard : List Answer) : Activity α → Activity (List Answer × α)
  | .done result => .done (heard, result)
  | .frame next => .frame fun answer => (next answer).record (heard ++ [answer])
  | .read next => .read fun answer => (next answer).record (heard ++ [answer])
  | .poll next => .poll fun answer? => (next answer?).record (heard ++ answer?.toList)
  | .gather none next => .gather none fun data stop => (next data stop).record (heard ++ told data stop)
  | .gather (some limit) next =>
    .gather (some limit) fun data stop => (next data stop).map fun result => (heard, result)
  | .inspect next => .inspect fun view => (next view).record heard
  | .pause next => .pause (next.record heard)
  | .wait steps next => .wait steps (next.record heard)
  | .release next => .release (next.map fun result => (heard, result))

theorem run_map [Incoming ι] (f : α → β) (activity : Activity α) (reader : BodyReader ι) :
    (activity.map f).run reader = ((activity.run reader).1.map f, (activity.run reader).2) := by
  rw [map, run_bind]
  rcases activity.run reader with ⟨_ | result, rest⟩ <;> rfl

/-- Recording changes nothing else. -/
theorem run_record [Incoming ι] (heard : List Answer) (activity : Activity α)
    (reader : BodyReader ι) :
    ((activity.record heard).run reader).1.map Prod.snd = (activity.run reader).1 ∧
      ((activity.record heard).run reader).2 = (activity.run reader).2 := by
  induction activity generalizing heard reader with
  | done result => exact ⟨rfl, rfl⟩
  | frame next ih =>
      simp only [record, run]
      cases reader.frame with
      | none => exact ⟨rfl, rfl⟩
      | some found => exact ih found.1 _ found.2
  | read next ih =>
      simp only [record, run]
      cases reader.read with
      | none => exact ⟨rfl, rfl⟩
      | some found => exact ih found.1 _ found.2
  | poll next ih => exact ih _ _ _
  | gather limit next ih =>
      cases limit with
      | none =>
          simp only [record, run]
          cases reader.gather none with
          | none => exact ⟨rfl, rfl⟩
          | some found => exact ih found.1 found.2.1 _ found.2.2
      | some limit =>
          simp only [record, run]
          cases reader.gather (some limit) with
          | none => exact ⟨rfl, rfl⟩
          | some found =>
              simp only [run_map, Option.map_map, Function.comp_def, Option.map_id']
              exact ⟨trivial, trivial⟩
  | inspect next ih => exact ih _ _ _
  | pause next ih => exact ih _ _
  | wait steps next ih => exact ih _ _
  | release next ih =>
      simp only [record, run, run_map, Option.map_map, Function.comp_def, Option.map_id']
      exact ⟨trivial, trivial⟩

end Activity

/-! The end of a body, or a fault, is heard for good. -/

namespace BodyReader

section Finished

variable [Incoming ι] {reader next : BodyReader ι} {answer : Answer}

theorem finished_of_poll (h : reader.poll = (.ready answer, next))
    (hlast : ∀ data, answer ≠ some (.ok data)) : next.finished = true := by
  unfold poll at h
  split at h
  · next hfinished =>
    obtain rfl := (Prod.mk.inj h).2
    exact hfinished
  · split at h
    · simp at h
    · next data _ _ =>
      obtain ⟨hready, -⟩ := Prod.mk.inj h
      exact absurd (Polled.ready.inj hready).symm (hlast data)
    · obtain rfl := (Prod.mk.inj h).2
      rfl

theorem finished_of_pollData (h : reader.pollData = (.ready answer, next))
    (hlast : ∀ data, answer ≠ some (.ok data)) : next.finished = true := by
  unfold pollData at h
  split at h
  · exact finished_of_poll h hlast
  · exact finished_of_poll h hlast

theorem finished_of_frame (h : reader.frame = some (answer, next))
    (hlast : ∀ data, answer ≠ some (.ok data)) : next.finished = true := by
  unfold frame at h
  split at h
  · next hpoll =>
    obtain ⟨rfl, rfl⟩ := Prod.mk.inj (Option.some.inj h)
    exact finished_of_poll hpoll hlast
  · split at h
    · next hpoll =>
      obtain ⟨rfl, rfl⟩ := Prod.mk.inj (Option.some.inj h)
      exact finished_of_poll hpoll hlast
    · contradiction

theorem finished_of_readWithin {fuel : Nat} (h : reader.readWithin fuel = some (answer, next))
    (hlast : ∀ data, answer ≠ some (.ok data)) : next.finished = true := by
  induction fuel generalizing reader with
  | zero => exact finished_of_frame h hlast
  | succ fuel ih =>
      unfold readWithin at h
      split at h
      · exact ih h
      · exact finished_of_frame h hlast

theorem poll_of_finished (h : reader.finished = true) : reader.poll = (.ready none, reader) :=
  if_pos h

theorem pollData_of_finished (h : reader.finished = true) :
    reader.pollData = (.ready none, reader) := by
  simp only [pollData, poll_of_finished h]

theorem frame_of_finished (h : reader.finished = true) : reader.frame = some (none, reader) := by
  simp only [frame, poll_of_finished h]

theorem readWithin_of_finished (h : reader.finished = true) (fuel : Nat) :
    reader.readWithin fuel = some (none, reader) := by
  cases fuel with
  | zero => exact frame_of_finished h
  | succ fuel => simp only [readWithin, frame_of_finished h]

theorem gather_of_finished (h : reader.finished = true) (limit : Option Nat) :
    reader.gather limit = some ([], .ended, reader) := by
  simp only [gather, gatherWithin, frame_of_finished h]
  rfl

end Finished

/-! Every way to read, with a body that is complete. -/

variable {size : PayloadSize} {feed : Feed} {taken : Bytes} {reader : BodyReader (BodyChannel Feed)}

theorem Midway.pollData (h : Midway size feed taken reader) (hinside : feed.Inside (.ofSize size)) :
    (∃ next, reader.pollData = (.pending, next) ∧ Midway size feed taken next) ∨
      ∃ answer next, reader.pollData = (.ready answer, next) ∧ Tells size feed taken next answer := by
  unfold BodyReader.pollData
  rcases h.poll hinside with ⟨waiting, hpoll, hwaiting⟩ | ⟨answer, next, hpoll, htells⟩
  · rw [hpoll]
    exact .inl ⟨waiting, rfl, hwaiting⟩
  · rw [hpoll]
    match answer with
    | none => exact .inr ⟨none, next, rfl, htells⟩
    | some (.error fault) => exact .inr ⟨_, next, rfl, htells⟩
    | some (.ok (b :: data)) => exact .inr ⟨_, next, rfl, htells⟩
    | some (.ok []) =>
        have hsame : Midway size feed taken next := List.append_nil taken ▸ htells
        exact hsame.poll hinside

theorem Midway.readWithin (h : Midway size feed taken reader) (hinside : feed.Inside (.ofSize size))
    (fuel : Nat) :
    (reader.readWithin fuel = none ∧ ((PayloadDecoder.ofSize size).drain feed.unread).stop ≠ .eof) ∨
      ∃ answer next, reader.readWithin fuel = some (answer, next) ∧
        Tells size feed taken next answer := by
  induction fuel generalizing reader with
  | zero => exact h.frame hinside
  | succ fuel ih =>
      unfold BodyReader.readWithin
      rcases h.frame hinside with ⟨hframe, hstop⟩ | ⟨answer, next, hframe, htells⟩
      · rw [hframe]
        exact .inl ⟨rfl, hstop⟩
      · rw [hframe]
        rcases answer with _ | fault | _ | ⟨b, data⟩
        · exact .inr ⟨none, next, rfl, htells⟩
        · exact .inr ⟨_, next, rfl, htells⟩
        · have hsame : Midway size feed taken next := List.append_nil taken ▸ htells
          exact ih hsame
        · exact .inr ⟨_, next, rfl, htells⟩

theorem Midway.gatherWithin (h : Midway size feed taken reader)
    (hinside : feed.Inside (.ofSize size))
    (hcomplete : ((PayloadDecoder.ofSize size).drain feed.unread).stop = .eof) {fuel : Nat}
    {before : Bytes} {seen : List Bytes} (htaken : taken = before ++ seen.reverse.flatten)
    (hfuel : potential reader.body < fuel) :
    ∃ all next, reader.gatherWithin fuel none seen = some (all, .ended, next) ∧
      before ++ all.reverse.flatten =
        ((PayloadDecoder.ofSize size).drain feed.unread).chunks.flatten ∧ next.finished = true := by
  induction fuel generalizing taken seen reader with
  | zero => contradiction
  | succ fuel ih =>
      unfold BodyReader.gatherWithin
      rcases h.frame hinside with ⟨hframe, hstop⟩ | ⟨answer, next, hframe, htells⟩
      · contradiction
      · rw [hframe]
        rcases answer with _ | fault | data
        · exact ⟨seen, next, rfl, htaken ▸ htells.2.symm, finished_of_frame hframe (by simp)⟩
        · exact absurd hcomplete htells
        · have hless := potential_frame (Feed.bounded hinside) h.reached hframe
          have hmore : taken ++ data = before ++ (data :: seen).reverse.flatten := by
            simp [htaken]
          exact ih htells hmore (by omega)

/-- What has been heard by a reader of a body that is complete. -/
structure Hears (size : PayloadSize) (feed : Feed) (heard : List Answer)
    (reader : BodyReader (BodyChannel Feed)) : Prop where
  faultless : ∀ fault, some (.error fault) ∉ heard
  state : none ∉ heard ∧ Midway size feed (Activity.heardData heard) reader ∨
    Activity.heardData heard = ((PayloadDecoder.ofSize size).drain feed.unread).chunks.flatten ∧
      reader.finished = true

namespace Hears

variable {heard : List Answer}

theorem of_tells (hcomplete : ((PayloadDecoder.ofSize size).drain feed.unread).stop = .eof)
    (hfaultless : ∀ fault, some (.error fault) ∉ heard) (hopen : none ∉ heard) {answer : Answer}
    {next : BodyReader (BodyChannel Feed)}
    (htells : Tells size feed (Activity.heardData heard) next answer)
    (hend : answer = none → next.finished = true) : Hears size feed (heard ++ [answer]) next := by
  match answer with
  | some (.error fault) => exact absurd hcomplete htells
  | none =>
      refine ⟨by simpa using hfaultless, .inr ⟨?_, hend rfl⟩⟩
      rw [Activity.heardData_append, htells.2]
      exact List.append_nil _
  | some (.ok data) =>
      refine ⟨by simpa using hfaultless, .inl ⟨by simpa using hopen, ?_⟩⟩
      have hdata : Activity.heardData [some (.ok data)] = data := by simp [Activity.heardData]
      rw [Activity.heardData_append, hdata]
      exact htells

theorem of_finished (h : Hears size feed heard reader) (hfinished : reader.finished = true) :
    Hears size feed (heard ++ [none]) reader where
  faultless := by simpa using h.faultless
  state := by
    rcases h.state with ⟨-, hmidway⟩ | ⟨hdata, -⟩
    · rw [hmidway.finished] at hfinished
      contradiction
    · refine .inr ⟨?_, hfinished⟩
      rw [Activity.heardData_append, hdata]
      exact List.append_nil _

theorem frame (h : Hears size feed heard reader) (hinside : feed.Inside (.ofSize size))
    (hcomplete : ((PayloadDecoder.ofSize size).drain feed.unread).stop = .eof) :
    ∃ answer next, reader.frame = some (answer, next) ∧ Hears size feed (heard ++ [answer]) next := by
  rcases h.state with ⟨hopen, hmidway⟩ | ⟨-, hfinished⟩
  · rcases hmidway.frame hinside with ⟨-, hstop⟩ | ⟨answer, next, hframe, htells⟩
    · contradiction
    · refine ⟨answer, next, hframe, of_tells hcomplete h.faultless hopen htells ?_⟩
      rintro rfl
      exact finished_of_frame hframe nofun
  · exact ⟨none, reader, frame_of_finished hfinished, h.of_finished hfinished⟩

theorem read (h : Hears size feed heard reader) (hinside : feed.Inside (.ofSize size))
    (hcomplete : ((PayloadDecoder.ofSize size).drain feed.unread).stop = .eof) :
    ∃ answer next, reader.read = some (answer, next) ∧ Hears size feed (heard ++ [answer]) next := by
  rcases h.state with ⟨hopen, hmidway⟩ | ⟨-, hfinished⟩
  · rcases hmidway.readWithin hinside (Incoming.bound reader.body) with
      ⟨-, hstop⟩ | ⟨answer, next, hread, htells⟩
    · contradiction
    · refine ⟨answer, next, hread, of_tells hcomplete h.faultless hopen htells ?_⟩
      rintro rfl
      exact finished_of_readWithin hread nofun
  · exact ⟨none, reader, readWithin_of_finished hfinished _, h.of_finished hfinished⟩

theorem pollData (h : Hears size feed heard reader) (hinside : feed.Inside (.ofSize size))
    (hcomplete : ((PayloadDecoder.ofSize size).drain feed.unread).stop = .eof) :
    Hears size feed (heard ++ reader.pollData.1.answer?.toList) reader.pollData.2 := by
  rcases h.state with ⟨hopen, hmidway⟩ | ⟨-, hfinished⟩
  · rcases hmidway.pollData hinside with ⟨next, hpoll, hnext⟩ | ⟨answer, next, hpoll, htells⟩
    · rw [hpoll]
      have hsame : heard ++ (Polled.answer? .pending).toList = heard := List.append_nil heard
      rw [hsame]
      exact ⟨h.faultless, .inl ⟨hopen, hnext⟩⟩
    · rw [hpoll]
      refine of_tells hcomplete h.faultless hopen htells ?_
      rintro rfl
      exact finished_of_pollData hpoll nofun
  · rw [pollData_of_finished hfinished]
    exact h.of_finished hfinished

theorem gather (h : Hears size feed heard reader) (hinside : feed.Inside (.ofSize size))
    (hcomplete : ((PayloadDecoder.ofSize size).drain feed.unread).stop = .eof) :
    ∃ data next, reader.gather none = some (data, .ended, next) ∧
      Hears size feed (heard ++ Activity.told data .ended) next := by
  have htold : ∀ data, Activity.heardData (heard ++ Activity.told data .ended) =
      Activity.heardData heard ++ data := by
    intro data
    rw [Activity.heardData_append]
    simp [Activity.heardData, Activity.told]
  have hfaultless : ∀ data fault,
      some (.error fault) ∉ heard ++ Activity.told data .ended := by
    intro data fault
    simpa [Activity.told] using h.faultless fault
  rcases h.state with ⟨hopen, hmidway⟩ | ⟨hdata, hfinished⟩
  · have hpotential := potential_le reader.body
    have htaken : Activity.heardData heard =
        Activity.heardData heard ++ ([] : List Bytes).reverse.flatten := (List.append_nil _).symm
    obtain ⟨all, next, hgather, hall, hfinished⟩ :=
      hmidway.gatherWithin hinside hcomplete htaken (Nat.lt_succ_of_le hpotential)
    refine ⟨all.reverse.flatten, next, ?_, hfaultless _, .inr ⟨?_, hfinished⟩⟩
    · rw [BodyReader.gather, hgather]
      rfl
    · rw [htold, hall]
  · refine ⟨[], reader, gather_of_finished hfinished none, hfaultless _, .inr ⟨?_, hfinished⟩⟩
    rw [htold, List.append_nil, hdata]

theorem advance (h : Hears size feed heard reader) (steps : Nat) :
    Hears size feed heard (reader.advance steps) where
  faultless := h.faultless
  state := h.state.imp (And.imp_right fun hmidway => hmidway.advance steps) fun hended => hended

theorem serve (h : Hears size feed heard reader) : Hears size feed heard reader.serve where
  faultless := h.faultless
  state := h.state.imp (And.imp_right fun hmidway => hmidway.serve) fun hended => hended

end Hears

end BodyReader

namespace Activity

variable {size : PayloadSize} {feed : Feed} {heard : List Answer}
  {reader : BodyReader (BodyChannel Feed)}

end Activity

theorem BodyReader.potential_readWithin [PayloadSource σ] {size : PayloadSize} {origin : σ}
    (hbounded : Bounded origin) {reader next : BodyReader (BodyChannel σ)}
    (h : Reached size origin reader.body) {fuel : Nat} {data : Bytes}
    (hread : reader.readWithin fuel = some (some (.ok data), next)) :
    potential next.body < potential reader.body := by
  induction fuel generalizing reader with
  | zero => exact potential_frame hbounded h hread
  | succ fuel ih =>
      unfold readWithin at hread
      split at hread
      · next middle hframe =>
        exact Nat.lt_trans (ih (reached_frame h hframe) hread) (potential_frame hbounded h hframe)
      · exact potential_frame hbounded h hread

namespace Activity

variable {size : PayloadSize} {feed : Feed} {taken : Bytes} {reader : BodyReader (BodyChannel Feed)}

end Activity

end Turnpike
