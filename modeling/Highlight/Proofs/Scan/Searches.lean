import Highlight.Proofs.Scan.Asking
import Highlight.Proofs.Scan.Lossless
import Mathlib.Data.List.Forall2
import Mathlib.Data.List.Perm.Subperm

/-!
No text is searched twice. Whatever the other rules do, and whatever hits are passed over, a rule is
searched again only from behind the start of the hit that it found last, and never after a search
that found nothing (`Grammar.searches_advance`).
-/

namespace Highlight

namespace Rule

/-- What a search of a rule from an offset of a text finds. -/
def findFrom? (rule : Rule) (text : List Char) (offset : Nat) : Option Hit := do
  let (_, c) ← (Cursor.start text).readTo? offset
  rule.find c

theorem findFrom?_offset (rule : Rule) (c : Cursor) :
    rule.findFrom? c.text c.offset = rule.find c := by
  rw [findFrom?, Cursor.readTo?_start]
  rfl

/-- A search from behind another one, and from behind the start of the hit that this one found. -/
structure Advances (rule : Rule) (text : List Char) (earlier later : Nat) : Prop where
  lt : earlier < later
  found : ∃ hit, rule.findFrom? text earlier = some hit ∧ hit.start < later

end Rule

namespace Lane

/-- What the last search of a lane has found out. -/
def lastFound (lane : Lane) (text : List Char) : Slot :=
  match lane.searches with
  | [] => .unknown
  | last :: _ =>
      match lane.rule.findFrom? text last with
      | some hit => .next hit
      | none => .exhausted

/-- A lane that has been searched in a text. It remembers what the last search found, and each
search found something new. -/
structure Searched (text : List Char) (lane : Lane) : Prop where
  sound : lane.rule.Sound
  slot_eq : lane.slot = lane.lastFound text
  le_width : ∀ offset ∈ lane.searches, offset ≤ Text.width text
  advances : lane.searches.Pairwise fun later earlier => lane.rule.Advances text earlier later

theorem searched_ofRule {rule : Rule} (h : rule.Sound) (text : List Char) :
    (ofRule rule).Searched text :=
  ⟨h, rfl, by simp [ofRule], .nil⟩

namespace Searched

variable {lane : Lane} {c d : Cursor}

theorem lastFound_search (lane : Lane) (c : Cursor) :
    (lane.search c).slot = (lane.search c).lastFound c.text := by
  have hfind : lane.rule.findFrom? c.text c.offset = lane.rule.find c :=
    lane.rule.findFrom?_offset c
  cases hfound : lane.rule.find c with
  | none => simp only [lastFound, search, hfind, hfound]
  | some hit => simp only [lastFound, search, hfind, hfound]

/-- A place behind the start of the last hit is behind all that the searches have found. -/
theorem advances_of_lt (h : lane.Searched c.text) {hit : Hit} (hslot : lane.slot = .next hit)
    (hlt : hit.start < c.offset) : ∀ earlier ∈ lane.searches,
      lane.rule.Advances c.text earlier c.offset := by
  have hlast := h.slot_eq
  have hadvances := h.advances
  rw [hslot, lastFound] at hlast
  split at hlast
  next => cases hlast
  next last rest hsearches =>
    split at hlast
    next found hfound =>
      cases hlast
      rw [hsearches] at hadvances ⊢
      have hle : last ≤ hit.start := by
        obtain ⟨⟨front, d⟩, hread, hfind⟩ := Option.bind_eq_some_iff.mp hfound
        have hstart := (h.sound d hit hfind).1
        rwa [Cursor.offset_of_readTo? hread] at hstart
      refine List.forall_mem_cons.mpr ⟨⟨by omega, hit, hfound, hlt⟩, ?_⟩
      -- The last search was behind the hits of those before it, and its own hit is no earlier.
      intro earlier hmem
      obtain ⟨hbefore, found, hearlier, hstart⟩ := (List.pairwise_cons.mp hadvances).1 earlier hmem
      exact ⟨by omega, found, hearlier, by omega⟩
    next => cases hlast

/-- A lane of which nothing is known has not been searched. -/
theorem searches_eq_nil (h : lane.Searched c.text) (hslot : lane.slot = .unknown) :
    lane.searches = [] := by
  have hlast := h.slot_eq
  rw [hslot, lastFound] at hlast
  split at hlast
  next hsearches => exact hsearches
  next => split at hlast <;> cases hlast

theorem search (h : lane.Searched c.text)
    (hadvances : ∀ earlier ∈ lane.searches, lane.rule.Advances c.text earlier c.offset) :
    (lane.search c).Searched c.text where
  sound := h.sound
  slot_eq := lastFound_search lane c
  le_width := List.forall_mem_cons.mpr ⟨(Cursor.boundary_offset rfl).le_width, h.le_width⟩
  advances := List.pairwise_cons.mpr ⟨hadvances, h.advances⟩

theorem refresh (h : lane.Searched c.text) : (lane.refresh c).Searched c.text := by
  unfold Lane.refresh
  split
  next => exact h
  next hit hslot =>
    split
    next => exact h
    next hstart => exact h.search (h.advances_of_lt hslot (by omega))
  next hslot => exact h.search (by simp [h.searches_eq_nil hslot])

/-- The loop of a global rule searches as sparingly as the scan does. -/
theorem ask (h : lane.Searched c.text) {answer : Answer} (hask : lane.ask c = .ok answer) :
    answer.lane.rule = lane.rule ∧ answer.place.text = c.text ∧ answer.lane.Searched c.text := by
  fun_induction Lane.ask lane c generalizing answer with
  | case1 lane c lane' hnone =>
      cases hask
      exact ⟨rule_refresh lane c, rfl, h.refresh⟩
  | case2 => cases hask
  | case3 lane c lane' hit hhit front d hread hglobal ih =>
      have htext : d.text = c.text := Cursor.text_eq_of_le (Cursor.le_of_readTo? hread)
      obtain ⟨inner, hinner, heq⟩ := exists_of_bind_eq_ok hask
      cases heq
      rw [htext] at ih
      obtain ⟨hrule, hplace, hsearched⟩ := ih h.refresh hinner
      exact ⟨hrule.trans (rule_refresh lane c), hplace, hsearched⟩
  | case4 lane c lane' hit hhit front d hread =>
      cases hask
      have htext : d.text = c.text := Cursor.text_eq_of_le (Cursor.le_of_readTo? hread)
      exact ⟨rule_refresh lane c, htext, h.refresh⟩

/-- The searches of a lane are at different offsets of the text. -/
theorem length_searches_le {text : List Char} (h : lane.Searched text) :
    lane.searches.length ≤ Text.width text + 1 := by
  have hnodup : lane.searches.Nodup := h.advances.imp fun hadvances => Nat.ne_of_gt hadvances.lt
  have hsubset : lane.searches ⊆ List.range (Text.width text + 1) := fun offset hmem =>
    List.mem_range.mpr (Nat.lt_succ_of_le (h.le_width offset hmem))
  simpa using (List.subperm_of_subset hnodup hsubset).length_le

end Searched

end Lane

namespace Scan

theorem searched_of_askAll {c : Cursor} {lanes lanes' : List Lane}
    {taken : Option (Rule × Lane.Answer)} (h : ∀ lane ∈ lanes, lane.Searched c.text)
    (haskAll : askAll c lanes = .ok (lanes', taken)) :
    lanes'.map (·.rule) = lanes.map (·.rule) ∧ (∀ lane ∈ lanes', lane.Searched c.text) ∧
      ∀ rule answer, taken = some (rule, answer) → answer.place.text = c.text := by
  rcases askAll_cases haskAll with ⟨rfl, rfl, -⟩ |
    ⟨before, lane, after, hit, answer, rfl, -, -, hask, rfl, rfl⟩
  · refine ⟨by simp [Function.comp_def], ?_, by simp⟩
    intro lane hmem
    obtain ⟨other, hother, rfl⟩ := List.mem_map.mp hmem
    exact (h other hother).refresh
  · obtain ⟨hrule, hplace, hsearched⟩ := (h lane (by simp)).ask hask
    refine ⟨by simp [hrule, Function.comp_def], ?_, ?_⟩
    · intro other hmem
      rcases List.mem_append.mp hmem with hmem | hmem
      · obtain ⟨earlier, hearlier, rfl⟩ := List.mem_map.mp hmem
        exact (h earlier (by simp [hearlier])).refresh
      · rcases List.mem_cons.mp hmem with rfl | hmem
        · exact hsearched
        · exact h other (by simp [hmem])
    · rintro _ _ ⟨⟩
      exact hplace

/-- All lanes of a scan are searched for something new each time, however the scan goes on. -/
theorem searched_of_run {lanes lanes' : List Lane} {c : Cursor} {steps : List Step}
    (h : ∀ lane ∈ lanes, lane.Searched c.text) (hrun : run lanes c = .ok (steps, lanes')) :
    lanes'.map (·.rule) = lanes.map (·.rule) ∧ ∀ lane ∈ lanes', lane.Searched c.text := by
  fun_induction run lanes c generalizing steps lanes' with
  | case1 lanes c hnext =>
      cases hrun
      exact ⟨rfl, h⟩
  | case2 => cases hrun
  | case3 lanes c char d hnext next rule answer hask ih =>
      obtain ⟨hrules, hsearched, hplace⟩ := searched_of_askAll h hask
      obtain ⟨⟨rest, last⟩, hrest, heq⟩ := exists_of_bind_eq_ok hrun
      cases heq
      rw [hplace rule answer rfl] at ih
      obtain ⟨hrules', hsearched'⟩ := ih hsearched hrest
      exact ⟨hrules'.trans hrules, hsearched'⟩
  | case4 lanes c char d hnext next hask ih =>
      obtain ⟨hrules, hsearched, -⟩ := searched_of_askAll h hask
      have htext : d.text = c.text := Cursor.text_eq_of_le (Cursor.le_of_next? hnext)
      obtain ⟨⟨rest, last⟩, hrest, heq⟩ := exists_of_bind_eq_ok hrun
      cases heq
      rw [htext] at ih
      obtain ⟨hrules', hsearched'⟩ := ih hsearched hrest
      exact ⟨hrules'.trans hrules, hsearched'⟩

end Scan

/-- A scan searches each rule from ever farther on: from behind the last search and the start of the
hit that it found, and no more if it found none. So there are no more searches for a rule than
there are offsets in the text. -/
theorem Grammar.searches_advance [Regex.Searcher] [Regex.LawfulSearcher] (g : Grammar)
    (text : List Char) :
    ∃ searches, Scan.searches g.rules text = .ok searches ∧
      List.Forall₂ (fun rule offsets => offsets.reverse.Pairwise (rule.Advances text) ∧
        offsets.length ≤ Text.width text + 1) g.rules searches := by
  have hsound : ∀ rule ∈ g.rules, rule.Sound := fun rule => sound_of_mem_rules
  obtain ⟨steps, lanes, -, hrun, -⟩ := Scan.exists_run (Lane.fits_of_mem_ofRule hsound
    (Cursor.start text).text)
  have hstart : ∀ lane ∈ g.rules.map Lane.ofRule, lane.Searched (Cursor.start text).text := by
    intro lane hmem
    obtain ⟨rule, hrule, rfl⟩ := List.mem_map.mp hmem
    exact Lane.searched_ofRule (hsound rule hrule) _
  obtain ⟨hrules, hsearched⟩ := Scan.searched_of_run hstart hrun
  rw [Lane.map_rule_ofRule] at hrules
  rw [Cursor.start_text] at hsearched
  refine ⟨lanes.map (·.searches), by simp [Scan.searches, hrun, Except.map], ?_⟩
  rw [← hrules, List.forall₂_map_left_iff, List.forall₂_map_right_iff, List.forall₂_same]
  intro lane hmem
  exact ⟨List.pairwise_reverse.mpr (hsearched lane hmem).advances,
    (hsearched lane hmem).length_searches_le⟩

/-- The second search for a name starts behind the first name and finds nothing, so there is no
third one. -/
theorem Grammar.searches_advance_dottedName :
    ∃ g searches, dottedName = .ok g ∧ Scan.searches g.rules "é new a.b ü".toList = .ok searches ∧
      searches = [[10, 0]] ∧
      List.Forall₂ (fun rule offsets =>
        offsets.reverse.Pairwise (rule.Advances "é new a.b ü".toList)) g.rules searches := by
  have hcheck : (dottedName.toOption.bind fun g =>
      (Scan.searches g.rules "é new a.b ü".toList).toOption) = some [[10, 0]] := by decide +kernel
  obtain ⟨g, hg, hcheck⟩ := Option.bind_eq_some_iff.mp hcheck
  obtain ⟨searches, hsearches, hadvance⟩ := g.searches_advance "é new a.b ü".toList
  rw [hsearches] at hcheck
  exact ⟨g, searches, eq_ok_of_toOption_eq_some hg, hsearches, Option.some.inj hcheck,
    hadvance.imp fun _ _ h => h.1⟩

end Highlight
