import Highlight.Proofs.Registry.Loading
import Highlight.Proofs.Registry.Synonyms
import Highlight.Proofs.Registry.Turns

/-!
Grammars at hand. Whatever a session does, what is published stays published. So a request that has
been answered with a grammar is answered with one at once ever after, unless a synonym is added for
the name (`Session.Runs.holds`).
-/

namespace Highlight

namespace Registry

/-- Every name that is published stays published. -/
def Grows (r r' : Registry) : Prop :=
  ∀ key, (r.store.find? key).isSome = true → (r'.store.find? key).isSome = true

variable {r r' r'' : Registry}

theorem Grows.refl (r : Registry) : r.Grows r :=
  fun _ h => h

theorem Grows.trans (h : r.Grows r') (h' : r'.Grows r'') : r.Grows r'' :=
  fun key hkey => h' key (h key hkey)

theorem grows_register (r : Registry) (grammar : Grammar) : r.Grows (r.register grammar) := by
  intro key hkey
  simp only [register, emit, Store.find?, Table.find?_insert]
  split
  next => rfl
  next => exact hkey

theorem isSome_find?_settle (name : String) (grammar : Grammar) (r : Registry) :
    ((Locator.settle name (some (.ok grammar)) r).2.store.find? name).isSome = true := by
  simp [Locator.settle, publishLocated, Store.find?, Table.find?_insertNew]

theorem grows_settle (name : String) (given : Option (Except GrammarError Grammar))
    (r : Registry) : r.Grows (Locator.settle name given r).2 := by
  rcases given with _ | e | grammar
  · exact .refl r
  · exact .refl r
  · intro key hkey
    simp only [Locator.settle, publishLocated, emit, Store.find?, Table.find?_insertNew]
    split
    next => rfl
    next => exact hkey

theorem canonical_settle (name : String) (given : Option (Except GrammarError Grammar))
    (r : Registry) (other : String) :
    (Locator.settle name given r).2.canonical other = r.canonical other := by
  rcases given with _ | e | grammar
  · rfl
  · rfl
  · rfl

theorem isSome_published?_iff {name : String} :
    (r.published? name).isSome = true ↔
      (r.store.find? name).isSome = true ∨ (r.store.find? (r.canonical name)).isSome = true := by
  simp only [Option.isSome_iff_ne_none, ne_eq, published?_eq_none_iff,
    Classical.not_and_iff_not_or_not]

theorem Grows.published? (h : r.Grows r') {name : String}
    (hcanonical : r'.canonical name = r.canonical name)
    (hpublished : (r.published? name).isSome = true) : (r'.published? name).isSome = true := by
  rw [isSome_published?_iff] at hpublished ⊢
  rw [hcanonical]
  exact hpublished.imp (h _) (h _)

end Registry

theorem exists_of_append_eq_append_cons {α : Type} {first second before after : List α} {x : α}
    (h : first ++ second = before ++ x :: after) :
    (∃ rest, first = before ++ x :: rest ∧ after = rest ++ second) ∨
      ∃ front, before = first ++ front ∧ second = front ++ x :: after := by
  rcases List.append_eq_append_iff.mp h with ⟨front, rfl, rfl⟩ | ⟨rest, rfl, hrest⟩
  · exact .inr ⟨front, rfl, rfl⟩
  · cases rest with
    | nil => exact .inr ⟨[], by simp, hrest.symm⟩
    | cons y rest =>
        obtain ⟨rfl, rfl⟩ := List.cons.inj hrest
        exact .inl ⟨rest, rfl, rfl⟩

theorem eq_of_singleton_eq_append_cons {α : Type} {before after : List α} {x y : α}
    (h : [y] = before ++ x :: after) : y = x ∧ after = [] := by
  cases before with
  | nil => simpa using h
  | cons => simp at h

/-- As long as no synonym is added for a name, each request for it is answered at once and with a
grammar, and it can be so at the end. -/
structure AtHand (name : String) (turns : List Turn) (r : Registry) : Prop where
  at_once : ∀ before after, turns = before ++ .called name :: after → .renamed name ∉ before →
    ∃ grammar rest, after = .returned name [] (.ok grammar) :: rest
  published : .renamed name ∉ turns → (r.published? name).isSome = true

theorem AtHand.append {name : String} {turns later : List Turn} {r r' : Registry}
    (h : AtHand name turns r) (h' : (r.published? name).isSome = true → AtHand name later r') :
    AtHand name (turns ++ later) r' := by
  refine ⟨?_, ?_⟩
  · intro before after hsplit hnone
    rcases exists_of_append_eq_append_cons hsplit with ⟨rest, hturns, rfl⟩ | ⟨front, rfl, hlater⟩
    · obtain ⟨grammar, others, rfl⟩ := h.at_once before rest hturns hnone
      exact ⟨grammar, others ++ later, rfl⟩
    · rw [List.mem_append, not_or] at hnone
      exact (h' (h.published hnone.1)).at_once front after hlater hnone.2
  · intro hnone
    rw [List.mem_append, not_or] at hnone
    exact (h' (h.published hnone.1)).published hnone.2

/-- What some turns from one registry to another mean for requests: names that are published stay
at hand, and so do names that are answered with a grammar. -/
structure Holds (r : Registry) (turns : List Turn) (r' : Registry) : Prop where
  grows : r.Grows r'
  canonical_eq : ∀ name, .renamed name ∉ turns → r'.canonical name = r.canonical name
  keeps : ∀ name, (r.published? name).isSome = true → AtHand name turns r'
  returned : ∀ name during grammar before after,
    turns = before ++ .returned name during (.ok grammar) :: after → .renamed name ∉ during →
      AtHand name after r'

namespace Holds

variable {r r' r'' : Registry} {turns later : List Turn}

theorem nil (hgrows : r.Grows r') (hcanonical : ∀ name, r'.canonical name = r.canonical name) :
    Holds r [] r' where
  grows := hgrows
  canonical_eq name _ := hcanonical name
  keeps name hname :=
    ⟨by simp, fun _ => hgrows.published? (hcanonical name) hname⟩
  returned := by simp

/-- A single turn holds unless it requests what is published, or answers with what is not. -/
theorem single {turn : Turn} (hgrows : r.Grows r')
    (hcanonical : ∀ name, turn ≠ .renamed name → r'.canonical name = r.canonical name)
    (hcalled : ∀ name, turn = .called name → r.published? name = none)
    (hreturned : ∀ name during grammar, turn = .returned name during (.ok grammar) →
      .renamed name ∉ during → (r'.published? name).isSome = true) : Holds r [turn] r' where
  grows := hgrows
  canonical_eq name hnone := hcanonical name fun heq => hnone (by simp [heq])
  keeps name hname := by
    refine ⟨?_, fun hnone => ?_⟩
    · intro before after hsplit _
      obtain ⟨heq, -⟩ := eq_of_singleton_eq_append_cons hsplit
      simp [hcalled name heq] at hname
    · exact hgrows.published? (hcanonical name fun heq => hnone (by simp [heq])) hname
  returned name during grammar before after hsplit hnone := by
    obtain ⟨heq, rfl⟩ := eq_of_singleton_eq_append_cons hsplit
    exact ⟨by simp, fun _ => hreturned name during grammar heq hnone⟩

theorem append (h : Holds r turns r') (h' : Holds r' later r'') : Holds r (turns ++ later) r'' where
  grows := h.grows.trans h'.grows
  canonical_eq name hnone := by
    rw [List.mem_append, not_or] at hnone
    rw [h'.canonical_eq name hnone.2, h.canonical_eq name hnone.1]
  keeps name hname := (h.keeps name hname).append (h'.keeps name)
  returned name during grammar before after hsplit hnone := by
    rcases exists_of_append_eq_append_cons hsplit with ⟨rest, hturns, rfl⟩ | ⟨front, -, hlater⟩
    · exact (h.returned name during grammar before rest hturns hnone).append (h'.keeps name)
    · exact h'.returned name during grammar front after hlater hnone

theorem called {name : String} (missing : r.published? name = none) :
    Holds r [.called name] r :=
  .single (.refl r) (fun _ _ => rfl) (by rintro _ ⟨⟩; exact missing) (by simp)

/-- A request for what is published is answered at once. -/
theorem published {name : String} {grammar : Grammar} (found : r.published? name = some grammar) :
    Holds r [.called name, .returned name [] (.ok grammar)] r where
  grows := .refl r
  canonical_eq _ _ := rfl
  keeps other hother := by
    refine ⟨?_, fun _ => hother⟩
    intro before after hsplit _
    cases before with
    | nil =>
        obtain ⟨heq, rfl⟩ := List.cons.inj hsplit
        cases heq
        exact ⟨grammar, [], rfl⟩
    | cons turn before =>
        obtain ⟨heq, -⟩ := eq_of_singleton_eq_append_cons (List.cons.inj hsplit).2
        cases heq
  returned other during grammar before after hsplit _ := by
    cases before with
    | nil => cases (List.cons.inj hsplit).1
    | cons turn before =>
        obtain ⟨heq, rfl⟩ := eq_of_singleton_eq_append_cons (List.cons.inj hsplit).2
        cases heq
        exact ⟨by simp, fun _ => by rw [found]; rfl⟩

/-- What the locator is asked for is published, if it answers with a grammar. So it is at hand
under the name that was called. -/
theorem exchange {name : String} {talk : List Turn} {given : Option (Except GrammarError Grammar)}
    (missing : r.published? name = none)
    (h : Holds (r.noteAsked (r.canonical name)) talk r') :
    Holds r (.called name :: (Turn.exchange (r.canonical name) talk given ++
        [.returned name (Turn.exchange (r.canonical name) talk given)
          (Locator.settle (r.canonical name) given r').1]))
      (Locator.settle (r.canonical name) given r').2 := by
  have hasked : Holds r [.asked (r.canonical name)] (r.noteAsked (r.canonical name)) :=
    .single (.refl r) (fun _ _ => rfl) (by simp) (by simp)
  have hanswered : Holds r' [.answered (r.canonical name) given]
      (Locator.settle (r.canonical name) given r').2 :=
    .single (Registry.grows_settle _ _ _) (fun _ _ => Registry.canonical_settle _ _ _ _)
      (by simp) (by simp)
  have hexchange : Holds r (Turn.exchange (r.canonical name) talk given)
      (Locator.settle (r.canonical name) given r').2 := hasked.append (h.append hanswered)
  refine (called missing).append (hexchange.append ?_)
  refine .single (.refl _) (fun _ _ => rfl) (by simp) ?_
  intro other during grammar heq hnone
  obtain ⟨rfl, rfl, hanswer⟩ := Turn.returned.inj heq
  rw [Registry.isSome_published?_iff, hexchange.canonical_eq name hnone]
  rcases given with _ | e | found
  · cases hanswer
  · cases hanswer
  · exact .inr (Registry.isSome_find?_settle _ found r')

end Holds

namespace Session

theorem Runs.holds {α : Type} {locator : Locator} {session : Session α} {r r' : Registry}
    {turns : List Turn} {a : α} (h : session.Runs locator r turns a r') : Holds r turns r' := by
  induction h with
  | done a r => exact .nil (.refl r) fun _ => rfl
  | @published _ name next r r' grammar turns a found _ ih =>
      exact (Holds.published found).append ih
  | @unlocated _ name next r r' turns a missing _ _ ih =>
      have hreturned : Holds r
          [.returned name [] (.error (.unknownGrammar (r.canonical name)))] r :=
        .single (.refl r) (fun _ _ => rfl) (by simp) (by simp)
      exact (Holds.called missing).append (hreturned.append ih)
  | @located _ name next r between r' talk turns given a missing _ _ _ ihbuild ih =>
      have hexchange : Holds r
          (.called name :: (Turn.exchange (r.canonical name) talk given ++
            [.returned name (Turn.exchange (r.canonical name) talk given)
              (Locator.settle (r.canonical name) given between).1]))
          (Locator.settle (r.canonical name) given between).2 := .exchange missing ihbuild
      have hall := hexchange.append ih
      rwa [List.cons_append, List.append_assoc, List.singleton_append] at hall
  | register _ ih => exact (Holds.nil (Registry.grows_register _ _) fun _ => rfl).append ih
  | @addSynonym _ synonym target _ r _ _ _ _ ih =>
      have hrenamed : Holds r [.renamed synonym] (r.addSynonym synonym target) := by
        refine .single (.refl r) (fun name hne => ?_) (by simp) (by simp)
        rw [Registry.canonical_addSynonym, if_neg]
        rintro rfl
        exact hne rfl
      exact hrenamed.append ih
  | inspect _ ih => exact ih
  | @emit _ event _ r _ _ _ _ ih =>
      have hemitted : Holds r [] (r.emit event) := .nil (.refl r) fun _ => rfl
      exact hemitted.append ih

end Session

end Highlight
