import Highlight.Compose.InPlace
import Highlight.Proofs.Compose.Splice

/-!
Insertion as a whole. It puts all tokens beside the anchor, in the grammar that owns it, or it
fails and changes nothing (`Grammar.insert_splices`).
-/

namespace Highlight

/-- The name of a token is among those that are taken, or an earlier token has it. -/
def Token.Repeats (token : Token) (taken : List String) (earlier : List Token) : Prop :=
  token.name ∈ taken ∨ token.name ∈ earlier.map (·.name)

/-- No token has a name that is taken, or that an earlier one of them has. -/
def Token.Fresh (taken : List String) (tokens : List Token) : Prop :=
  ∀ earlier token later, tokens = earlier ++ token :: later → ¬ token.Repeats taken earlier

theorem Token.repeats_iff {token : Token} {taken : List String} {earlier : List Token} :
    token.Repeats taken earlier ↔ token.name ∈ (earlier.map (·.name)).reverse ++ taken := by
  rw [Repeats, List.mem_append, List.mem_reverse, or_comm]

namespace Grammar

theorem firstTaken?_append (taken : List String) (tokens rest : List Token) :
    firstTaken? taken (tokens ++ rest) = (firstTaken? taken tokens).or
      (firstTaken? ((tokens.map (·.name)).reverse ++ taken) rest) := by
  induction tokens generalizing taken with
  | nil => simp [firstTaken?]
  | cons token tokens ih =>
      rw [List.cons_append, firstTaken?, firstTaken?]
      split
      · rfl
      · rw [ih]
        simp

/-- The first token to repeat a name is the one that is found. -/
theorem firstTaken?_of_repeats {taken : List String} {earlier : List Token} {token : Token}
    (hnone : firstTaken? taken earlier = none) (h : token.Repeats taken earlier)
    (later : List Token) : firstTaken? taken (earlier ++ token :: later) = some token := by
  rw [firstTaken?_append, hnone, Option.none_or, firstTaken?,
    if_pos (by simpa using Token.repeats_iff.mp h)]

theorem fresh_iff {taken : List String} {tokens : List Token} :
    Token.Fresh taken tokens ↔ firstTaken? taken tokens = none := by
  constructor
  · intro h
    induction tokens generalizing taken with
    | nil => rfl
    | cons token rest ih =>
        have hnew : token.name ∉ taken := fun hmem => h [] token rest rfl (.inl hmem)
        rw [firstTaken?, if_neg (by simpa using hnew)]
        apply ih
        rintro earlier other later rfl hrepeats
        apply h (token :: earlier) other later rfl
        rw [Token.repeats_iff] at hrepeats ⊢
        simpa using hrepeats
  · rintro h earlier token later rfl hrepeats
    have hnone : firstTaken? taken earlier = none := by
      rw [firstTaken?_append] at h
      exact (Option.or_eq_none_iff.mp h).1
    rw [firstTaken?_of_repeats hnone hrepeats] at h
    cases h

theorem fresh_iff_nodup {taken : List String} {tokens : List Token} :
    Token.Fresh taken tokens ↔
      (tokens.map (·.name)).Nodup ∧ ∀ token ∈ tokens, token.name ∉ taken := by
  constructor
  · intro h
    exact distinct_of_firstTaken?_eq_none (fresh_iff.mp h)
  · rintro ⟨hdistinct, hnew⟩ earlier token later rfl hrepeats
    rcases hrepeats with hmem | hmem
    · exact hnew token (by simp) hmem
    · rw [List.map_append, List.map_cons, List.nodup_append] at hdistinct
      exact hdistinct.2.2 _ hmem _ List.mem_cons_self rfl

/-- Appending succeeds just where all names are new. -/
theorem pushAll_eq_ok_iff {g g' : Grammar} {tokens : List Token} :
    g.pushAll tokens = .ok g' ↔ (tokens.map (·.name)).Nodup ∧
      (∀ token ∈ tokens, token.name ∉ g.tokenNames) ∧
      g' = { g with tokens := g.tokens ++ tokens } := by
  induction tokens generalizing g with
  | nil =>
      cases g
      simp [pushAll, eq_comm]
  | cons token rest ih =>
      rw [pushAll, push]
      split
      next hcontains =>
        constructor
        · intro h
          cases h
        · rintro ⟨-, hnew, -⟩
          exact absurd (contains_iff.mp hcontains) (hnew token List.mem_cons_self)
      next hcontains =>
        have hnew : token.name ∉ g.tokenNames := fun h => hcontains (contains_iff.mpr h)
        change pushAll { g with tokens := g.tokens ++ [token] } rest = .ok g' ↔ _
        rw [ih]
        simp only [List.map_cons, List.nodup_cons, List.forall_mem_cons, tokenNames,
          List.map_append, List.mem_append, not_or, List.append_assoc, List.singleton_append]
        constructor
        · rintro ⟨hrest, hall, rfl⟩
          refine ⟨⟨fun hmem => ?_, hrest⟩, ⟨hnew, fun t ht => (hall t ht).1⟩, rfl⟩
          obtain ⟨t, ht, heq⟩ := List.mem_map.mp hmem
          exact (hall t ht).2 (by simp [heq])
        · rintro ⟨⟨htoken, hrest⟩, ⟨-, hall⟩, rfl⟩
          refine ⟨hrest, fun t ht => ⟨hall t ht, fun hmem => ?_⟩, rfl⟩
          exact htoken (List.mem_map.mpr ⟨t, ht, by simpa using hmem⟩)

/-- Tokens can be built into a grammar just where their names differ. -/
theorem build_eq_ok_iff {name : String} {tokens : List Token} {g : Grammar} :
    build name tokens = .ok g ↔ (tokens.map (·.name)).Nodup ∧ g = ⟨name, tokens, none⟩ := by
  simp [build, pushAll_eq_ok_iff, empty, tokenNames]

theorem insertIdx_length_append {α : Type} (before after : List α) (a : α) :
    (before ++ after).insertIdx before.length a = before ++ a :: after := by
  induction before with
  | nil => rfl
  | cons b before ih => simp [ih]

/-- Moving tokens in one by one is splicing, as long as their names are new. -/
theorem putAllAt_eq {g : Grammar} {before after tokens : List Token}
    (h : g.tokens = before ++ after) (hdistinct : (tokens.map (·.name)).Nodup)
    (hnew : ∀ token ∈ tokens, token.name ∉ g.tokenNames) :
    g.putAllAt before.length tokens = { g with tokens := before ++ tokens ++ after } := by
  induction tokens generalizing g before with
  | nil =>
      cases g
      simp_all [putAllAt]
  | cons token rest ih =>
      obtain ⟨htoken, hrest⟩ := List.nodup_cons.mp hdistinct
      obtain ⟨hfirst, hothers⟩ := List.forall_mem_cons.mp hnew
      have hfilter : g.tokens.filter (·.name != token.name) = before ++ after := by
        rw [List.filter_eq_self.mpr, h]
        intro t ht
        have hne : t.name ≠ token.name := fun heq => hfirst (heq ▸ List.mem_map_of_mem ht)
        simpa using hne
      have hput : g.putAt before.length token =
          { g with tokens := (before ++ [token]) ++ after } := by
        rw [putAt, hfilter, insertIdx_length_append]
        simp
      have hlength : before.length + 1 = (before ++ [token]).length := by simp
      rw [putAllAt, hput, hlength, ih rfl hrest]
      · simp
      · intro t ht hmem
        have hmem : t.name = token.name ∨ t.name ∈ g.tokenNames := by
          rw [tokenNames, h]
          simpa [tokenNames, or_left_comm] using hmem
        rcases hmem with heq | hmem
        · exact htoken (List.mem_map.mpr ⟨t, ht, heq⟩)
        · exact hothers t ht hmem

theorem spliceInPlace_eq {g : Grammar} {index : Nat} (h : index ≤ g.size) (tokens : List Token) :
    g.spliceInPlace index tokens = .allOrNothing g (g.splice index tokens) := by
  rw [spliceInPlace, splice]
  cases hnone : firstTaken? g.tokenNames tokens with
  | some token => rfl
  | none =>
      obtain ⟨hdistinct, hnew⟩ := distinct_of_firstTaken?_eq_none hnone
      have hput := putAllAt_eq (List.take_append_drop index g.tokens).symm hdistinct hnew
      rw [List.length_take_of_le h] at hput
      simp only [hput]
      rfl

theorem insertInPlace_eq (g : Grammar) (side : Side) (anchor : String) (tokens : List Token) :
    g.insertInPlace side anchor tokens = .allOrNothing g (g.insert side anchor tokens) := by
  unfold insertInPlace insert
  cases howner : g.focusAlong? (Path.owners anchor) with
  | none => rfl
  | some owner =>
      have hwhole := plug_value_of_focusAlong? howner
      cases hindex : owner.value.position? (Path.last anchor) with
      | none =>
          simp only [Focus.carryOut, hindex, Aftermath.failure, hwhole]
          rfl
      | some index =>
          have hle : side.shift index ≤ owner.value.size := by
            obtain ⟨hlt, -⟩ := List.findIdx?_eq_some_iff_getElem.mp hindex
            cases side with
            | before => exact Nat.le_of_lt hlt
            | after => exact hlt
          simp only [hindex]
          apply Focus.carryOut_allOrNothing hwhole
          simp only [hindex]
          exact spliceInPlace_eq hle tokens

/-- Tokens may be put beside another one just where the names of all of them differ. -/
theorem fresh_iff_nodup_beside {g : Grammar} {before after : List Token} {token : Token}
    (h : g.tokens = before ++ token :: after) (hnodup : g.tokenNames.Nodup) (side : Side)
    (tokens : List Token) : Token.Fresh g.tokenNames tokens ↔
      ((before ++ side.beside token tokens ++ after).map (·.name)).Nodup := by
  have hperm : (before ++ side.beside token tokens ++ after).Perm (tokens ++ g.tokens) := by
    cases side with
    | before => simpa [h, Side.beside] using List.perm_append_comm_assoc before tokens _
    | after =>
        simpa [h, Side.beside] using List.perm_append_comm_assoc (before ++ [token]) tokens after
  rw [fresh_iff_nodup, (hperm.map _).nodup_iff, List.map_append, List.nodup_append]
  constructor
  · rintro ⟨hdistinct, hnew⟩
    refine ⟨hdistinct, hnodup, ?_⟩
    rintro name hname _ hother rfl
    obtain ⟨t, ht, rfl⟩ := List.mem_map.mp hname
    exact hnew t ht hother
  · rintro ⟨hdistinct, -, hdisjoint⟩
    exact ⟨hdistinct, fun t ht hmem => hdisjoint _ (List.mem_map_of_mem ht) _ hmem rfl⟩

/-- Insertion either puts all tokens beside the anchor, or changes nothing. -/
theorem insert_splices (g : Grammar) (side : Side) (anchor : String) (tokens : List Token) :
    g.insertInPlace side anchor tokens = .allOrNothing g (g.insert side anchor tokens) ∧
      (g.tokenAt? anchor = none →
        g.insert side anchor tokens = .error (.anchorNotFound g.name anchor)) ∧
      ∀ token, g.tokenAt? anchor = some token → ∃ owner before after,
        g.insideAlong? (Path.owners anchor) = some owner ∧
        owner.tokens = before ++ token :: after ∧ (∀ t ∈ before, t.name ≠ token.name) ∧
        (∀ earlier repeated later, tokens = earlier ++ repeated :: later →
          Token.Fresh owner.tokenNames earlier → repeated.Repeats owner.tokenNames earlier →
            g.insert side anchor tokens = .error (.duplicateToken owner.name repeated.name)) ∧
        (Token.Fresh owner.tokenNames tokens → ∃ other, g.insert side anchor tokens = .ok other ∧
          g.Exchanges (Path.owners anchor) owner
            { owner with tokens := before ++ side.beside token tokens ++ after } other) ∧
        (owner.tokenNames.Nodup → ∀ name, (∃ other, g.insert side anchor tokens = .ok other) ↔
          ∃ built, build name (before ++ side.beside token tokens ++ after) = .ok built) ∧
        ∀ name built, build name (before ++ side.beside token tokens ++ after) = .ok built →
          built.tokens = before ++ side.beside token tokens ++ after := by
  refine ⟨g.insertInPlace_eq side anchor tokens, fun h => insert_of_tokenAt?_eq_none h side tokens,
    ?_⟩
  intro token h
  obtain ⟨owner, index, howner, hfind, hindex, hinsert⟩ := exists_insert_eq h
  obtain ⟨hname, before, after, htokens, hfirst, hposition⟩ := exists_of_find?_eq_some hfind
  obtain rfl := Option.some.inj (hindex.symm.trans hposition)
  have hsplice := splice_beside htokens side tokens
  refine ⟨owner.value, before, after, ?_, htokens, by rwa [hname], ?_, ?_, ?_, ?_⟩
  · rw [← map_value_focusAlong?, howner]
    rfl
  · rintro earlier repeated later rfl hfresh hrepeats
    rw [hinsert, hsplice, firstTaken?_of_repeats (fresh_iff.mp hfresh) hrepeats]
    rfl
  · intro hfresh
    rw [hinsert, hsplice, fresh_iff.mp hfresh]
    exact ⟨_, rfl, exchanges_of_focusAlong? howner _⟩
  · intro hnodup name
    have hbuild : (∃ built, build name (before ++ side.beside token tokens ++ after) = .ok built) ↔
        Token.Fresh owner.value.tokenNames tokens := by
      simp [build_eq_ok_iff, fresh_iff_nodup_beside htokens hnodup side tokens]
    rw [hbuild, fresh_iff, hinsert, hsplice]
    cases firstTaken? owner.value.tokenNames tokens <;> simp [Except.map]
  · intro name built hbuild
    rw [(build_eq_ok_iff.mp hbuild).2]

theorem insert_splices_styleSheet :
    ∃ g state id owner before after other, styleSheet = .ok g ∧
      Token.compile "state" [.plain ":\\w+"] = .ok state ∧
      g.tokenAt? "selector/id" = some id ∧ owner.tokens = before ++ id :: after ∧
      g.insertInPlace .before "selector/id" [state] = .success other ∧
      g.Exchanges ["selector"] owner
        { owner with tokens := before ++ [state, id] ++ after } other ∧
      (∃ built, build "css" (before ++ [state, id] ++ after) = .ok built) ∧
      g.insertInPlace .before "selector/id" [state, state, id] =
        .failure (.duplicateToken "inside" "state") g ∧
      g.insertInPlace .before "selector/none" [state] =
        .failure (.anchorNotFound "css" "selector/none") g := by
  have hcheck : (styleSheet.toOption.bind fun g => (g.tokenAt? "selector/id").bind fun id =>
      (Token.compile "state" [.plain ":\\w+"]).toOption.map fun state =>
        (state.name, g.name, (g.tokenAt? "selector/none").isNone,
          (g.insideAlong? ["selector"]).map fun owner => (owner.name, owner.tokenNames))) =
      some ("state", "css", true, some ("inside", ["class", "id"])) := by decide +kernel
  obtain ⟨g, hg, hcheck⟩ := Option.bind_eq_some_iff.mp hcheck
  obtain ⟨id, hid, hcheck⟩ := Option.bind_eq_some_iff.mp hcheck
  obtain ⟨state, hstate, hcheck⟩ := Option.map_eq_some_iff.mp hcheck
  simp only [Prod.mk.injEq, Option.isNone_iff_eq_none] at hcheck
  obtain ⟨hname, hgName, hnone, hinside⟩ := hcheck
  have howners : Path.owners "selector/id" = ["selector"] := by decide
  obtain ⟨hplace, -, hone⟩ := g.insert_splices .before "selector/id" [state]
  obtain ⟨owner, before, after, howner, htokens, -, -, hsplice, hbuild, -⟩ := hone id hid
  rw [howners] at howner hsplice
  rw [howner, Option.map_some, Option.some.injEq, Prod.mk.injEq] at hinside
  obtain ⟨hownerName, hownerNames⟩ := hinside
  have hfresh : Token.Fresh owner.tokenNames [state] := by
    rw [fresh_iff_nodup]
    simp [hname, hownerNames]
  obtain ⟨other, hinsert, hexchanges⟩ := hsplice hfresh
  obtain ⟨hplace', -, htwo⟩ := g.insert_splices .before "selector/id" [state, state, id]
  obtain ⟨owner', -, -, howner', -, -, hrepeat, -⟩ := htwo id hid
  rw [howners, howner] at howner'
  obtain rfl := Option.some.inj howner'
  obtain ⟨hplace'', hmissing, -⟩ := g.insert_splices .before "selector/none" [state]
  refine ⟨g, state, id, owner, before, after, other, eq_ok_of_toOption_eq_some hg,
    eq_ok_of_toOption_eq_some hstate, hid, htokens, ?_, hexchanges, ?_, ?_, ?_⟩
  · rw [hplace, hinsert]
    rfl
  · exact (hbuild (by simp [hownerNames]) "css").mp ⟨other, hinsert⟩
  · rw [hplace', hrepeat [state] state [id] rfl hfresh (.inr (by simp)), hownerName, hname]
    rfl
  · rw [hplace'', hmissing hnone, hgName]
    rfl

end Grammar

end Highlight
