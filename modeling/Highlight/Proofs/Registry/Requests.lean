import Highlight.Registry.Run

/-!
The requests that sessions make. What is said of each request of a session holds of it whatever the
requests before it are answered (`Session.Makes`). Working with grammars adds no synonyms, and
leaves it to the registry to report what is published (`Session.Request.Working`).
-/

namespace Highlight

namespace Event

/-- The grammar that an event with one of some messages is about. -/
def about? (messages : List String) (event : Event) : Option String :=
  if event.message ∈ messages then
    match event.fields.lookup "grammar" with
    | some (.text grammar) => some grammar
    | _ => none
  else none

/-- The name under which an event reports that a grammar has been published. -/
def published? (event : Event) : Option String :=
  event.about? ["Registered grammar", "Replaced registered grammar", "Loaded grammar from locator"]

def registered? (event : Event) : Option String :=
  event.about? ["Registered grammar"]

def replaced? (event : Event) : Option String :=
  event.about? ["Replaced registered grammar"]

variable {event : Event} {name : String}

theorem published?_of_registered? (h : event.registered? = some name) :
    event.published? = some name := by
  cases event with
  | registered grammar tokens => exact h
  | _ => cases h

theorem published?_of_replaced? (h : event.replaced? = some name) :
    event.published? = some name := by
  cases event with
  | replaced grammar => exact h
  | _ => cases h

end Event

namespace Session

inductive Request where
  | require (name : String)
  | register (grammar : Grammar)
  | addSynonym (synonym target : String)
  | inspect
  | emit (event : Event)

variable {α β : Type} {P Q : Request → Prop}

/-- A session of which each request is as `P` says, whatever those before it are answered. -/
def Makes (P : Request → Prop) : Session α → Prop
  | .done _ => True
  | .require name next => P (.require name) ∧ ∀ answer, (next answer).Makes P
  | .register grammar next => P (.register grammar) ∧ next.Makes P
  | .addSynonym synonym target next => P (.addSynonym synonym target) ∧ next.Makes P
  | .inspect next => P .inspect ∧ ∀ store, (next store).Makes P
  | .emit event next => P (.emit event) ∧ next.Makes P

theorem Makes.andThen {session : Session α} {f : α → Session β} (h : session.Makes P)
    (hf : ∀ a, (f a).Makes P) : (session.andThen f).Makes P := by
  induction session with
  | done value => exact hf value
  | require name next ih => exact ⟨h.1, fun answer => ih answer (h.2 answer)⟩
  | register grammar next ih => exact ⟨h.1, ih h.2⟩
  | addSynonym synonym target next ih => exact ⟨h.1, ih h.2⟩
  | inspect next ih => exact ⟨h.1, fun store => ih store (h.2 store)⟩
  | emit event next ih => exact ⟨h.1, ih h.2⟩

theorem Makes.mono {session : Session α} (h : session.Makes P)
    (himp : ∀ request, P request → Q request) : session.Makes Q := by
  induction session with
  | done value => trivial
  | require name next ih => exact ⟨himp _ h.1, fun answer => ih answer (h.2 answer)⟩
  | register grammar next ih => exact ⟨himp _ h.1, ih h.2⟩
  | addSynonym synonym target next ih => exact ⟨himp _ h.1, ih h.2⟩
  | inspect next ih => exact ⟨himp _ h.1, fun store => ih store (h.2 store)⟩
  | emit event next ih => exact ⟨himp _ h.1, ih h.2⟩

namespace Request

/-- A request that does not add a synonym. -/
def KeepsSynonyms (request : Request) : Prop :=
  ∀ synonym target, request ≠ .addSynonym synonym target

/-- A request that does not report a publication. The registry does so where one takes place. -/
def LeavesReports (request : Request) : Prop :=
  ∀ event, request = .emit event → event.published? = none

/-- A request as it comes of working with grammars. -/
structure Working (request : Request) : Prop where
  keepsSynonyms : request.KeepsSynonyms
  leavesReports : request.LeavesReports

theorem working_require (name : String) : Working (.require name) :=
  ⟨by rintro _ _ ⟨⟩, by rintro _ ⟨⟩⟩

theorem working_register (grammar : Grammar) : Working (.register grammar) :=
  ⟨by rintro _ _ ⟨⟩, by rintro _ ⟨⟩⟩

theorem working_emit {event : Event} (h : event.published? = none) : Working (.emit event) :=
  ⟨by rintro _ _ ⟨⟩, by rintro _ ⟨⟩; exact h⟩

end Request

end Session

/-- A locator of which each request is as `P` says. -/
def Locator.Makes (P : Session.Request → Prop) (locator : Locator) : Prop :=
  ∀ name, (locator.grammar name).Makes P

namespace Build

open Session.Request

variable {α β : Type} {P : Session.Request → Prop}

/-- A build of which each request is as `P` says. -/
structure Makes (P : Session.Request → Prop) (build : Build α) : Prop where
  run : build.run.Makes P

theorem Makes.bind {build : Build α} {f : α → Build β} (h : build.Makes P)
    (hf : ∀ a, (f a).Makes P) : Makes P (build >>= f) := by
  refine ⟨Session.Makes.andThen h.run ?_⟩
  rintro (e | a)
  · trivial
  · exact (hf a).run

theorem makes_pure (a : α) : Makes P (pure a) :=
  ⟨trivial⟩

theorem working_require (name : String) : (require name).Makes Working :=
  ⟨Session.Request.working_require name, fun _ => trivial⟩

theorem working_emit {event : Event} (h : event.published? = none) : (emit event).Makes Working :=
  ⟨Session.Request.working_emit h, trivial⟩

theorem working_derive {σ : Type} (base : Grammar) (name : String) (sieve : Sieve σ)
    (tokens : List Token) : (derive base name sieve tokens).Makes Working :=
  (working_emit rfl).bind fun _ => makes_pure _

theorem working_extendFiltered {σ : Type} (base name : String) (sieve : Sieve σ)
    (tokens : List Token) : (extendFiltered base name sieve tokens).Makes Working :=
  (working_require base).bind fun _ => working_derive _ _ _ _

theorem working_extend (base name : String) (tokens : List Token) :
    (extend base name tokens).Makes Working :=
  working_extendFiltered base name .all tokens

end Build

end Highlight
