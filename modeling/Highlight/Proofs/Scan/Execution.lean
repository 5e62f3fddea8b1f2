import Highlight.Proofs.Scan.Machine
import Highlight.Proofs.Scan.Refinement

/-!
What tokenizing step by step comes to. A frame follows a scan when its nodes, together with those
for the steps still to come, are the nodes of the scan (`Frame.Follows`). Each step of the machine
keeps this, so that no step slips and the run ends with those nodes (`runs_rules`).
-/

namespace Highlight.Machine

theorem place_offset (c : Cursor) : place c.text c.offset = .ok c := by
  rw [place, Cursor.readTo?_start]

theorem part_of_readTo? {c d : Cursor} {stop : Nat} {front : List Char}
    (h : c.readTo? stop = some (front, d)) : part c.text c.offset stop = .ok front := by
  have hafter := (Cursor.readTo?_eq_some_iff.mp h).1
  refine part_eq_ok_iff.mpr ⟨c.before.reverse, d.after, ?_, ?_, ?_⟩
  · rw [Cursor.text, hafter, List.append_assoc]
  · rw [Text.width_reverse, c.offset_eq]
  · exact Cursor.offset_add_width_of_readTo? h

theorem exactRange_of_rangeAt {base start stop : Nat} {range : TextRange}
    (h : Forest.rangeAt base start stop = .ok range) (hle : start ≤ stop)
    (hlt : base + stop < UInt32.size) : exactRange (base + start) (base + stop) = .ok range := by
  unfold Forest.rangeAt at h
  split at h
  next found hfound =>
    cases h
    rw [exactRange, if_pos ⟨by omega, hlt⟩, hfound]
  next => cases h

theorem literalAt_of_literal {run : Forest.Run} {base : Nat} {node : Node} (hsound : run.Sound)
    (hlt : base + Text.width run.place.text < UInt32.size)
    (hliteral : run.literal base = .ok [node]) :
    literalAt run.place.text base run.first.offset run.place.offset = .ok node := by
  have hread : run.first.readTo? run.place.offset = some (run.text.reverse, run.place) :=
    Cursor.readTo?_eq_some_iff.mpr ⟨hsound.after, by simpa using hsound.before, rfl⟩
  have hpart := part_of_readTo? hread
  rw [← Cursor.text_eq_of_le hsound.le] at hpart
  have hfits : base + run.place.offset < UInt32.size := (Cursor.boundary_offset rfl).add_lt hlt
  unfold Forest.Run.literal at hliteral
  split at hliteral
  next => cases hliteral
  next =>
    obtain ⟨range, hrange, heq⟩ := exists_of_bind_eq_ok hliteral
    cases heq
    have hexact := exactRange_of_rangeAt hrange (Cursor.offset_le_of_le hsound.le) hfits
    simp only [literalAt, hpart, hexact]
    rfl

theorem pushLiteral_of_closed {text : List Char} {base start stop : Nat} {nodes : List Node}
    (h : Plain.Closed nodes) :
    pushLiteral text base start stop nodes =
      (literalAt text base start stop).map (· :: nodes) := by
  unfold pushLiteral
  split
  next before range rest => exact absurd rfl (h before range rest)
  next => rfl

/-- Adding text to the literal of a run gives the literal of the longer run. -/
theorem pushLiteral_of_extend {base stop : Nat} {run run' : Forest.Run}
    {pending pending' done : List Node} (hsound : run.Sound)
    (hlt : base + Text.width run.place.text < UInt32.size)
    (hextend : run.extend base stop = .ok run') (hne : stop ≠ run.place.offset)
    (hliteral : run.literal base = .ok pending) (hliteral' : run'.literal base = .ok pending')
    (hclosed : Plain.Closed done) :
    pushLiteral run.place.text base run.place.offset stop (pending ++ done) =
      .ok (pending' ++ done) := by
  obtain ⟨hsound', hfirst, hle, hoffset⟩ := hsound.extend hextend
  have htext : run'.place.text = run.place.text := Cursor.text_eq_of_le hle
  have hlt' : base + Text.width run'.place.text < UInt32.size := htext ▸ hlt
  obtain ⟨front, -, -, hread, -, -, hrunText⟩ :=
    (Forest.Run.eq_of_extend_eq_ok hextend).resolve_left (fun h => hne h.1)
  have hfront : front ≠ [] := by
    rintro rfl
    exact hne (Cursor.offset_add_width_of_readTo? hread).symm
  rcases Forest.Run.literal_cases hsound' hlt' with ⟨hnil, -⟩ | ⟨longer, -, hlonger⟩
  · simp [hrunText, hfront] at hnil
  · rw [hlonger] at hliteral'
    cases hliteral'
    have hnode := literalAt_of_literal hsound' hlt' hlonger
    rw [htext, hfirst, hoffset] at hnode
    rcases Forest.Run.literal_cases hsound hlt with ⟨hnil, hok⟩ | ⟨range, hrange, hok⟩
    · rw [hok] at hliteral
      cases hliteral
      have hplace : run.first.offset = run.place.offset := by
        rw [hsound.offset_eq, hnil, List.reverse_nil, Text.width_nil, Nat.add_zero]
      rw [List.nil_append, pushLiteral_of_closed hclosed, ← hplace, hnode]
      rfl
    · rw [hok] at hliteral
      cases hliteral
      -- The literal so far starts in the text where the run does, and ends at its place.
      have hprevious : offsetIn base range.start.toNat = .ok run.first.offset := by
        rw [hrange.start, offsetIn, if_pos (Nat.le_add_right _ _), Nat.add_sub_cancel_left]
      have hadjacent :
          run.first.offset + Text.width (String.ofList run.text.reverse).toList =
            run.place.offset := by
        rw [String.toList_ofList, hsound.offset_eq]
      simp only [List.cons_append, List.nil_append, pushLiteral, hprevious, bind, Except.bind,
        hadjacent, if_true, hnode]
      rfl

variable [Regex.Searcher]

abbrev Reaches : State → State → Prop :=
  Relation.ReflTransGen fun s s' => step s = .ok (some s')

theorem Pending.close_of_tokenOf {p : Pending} {matched : Matched}
    (h : Forest.TokenOf p.frame.base p.seat.lane.rule p.hit p.text matched)
    (hlt : p.frame.base + p.hit.stop < UInt32.size) :
    p.close matched.children = .ok (p.frame.behind p.index p.seat p.hit matched) := by
  have hrange := exactRange_of_rangeAt h.range_eq p.hit.contextEnd_le_stop hlt
  have hname := h.name_eq
  have hlabel := h.label_eq
  have htext := h.text_eq
  rw [p.seat.rule_eq, Pattern.rule_token] at hname
  rw [p.seat.rule_eq, Pattern.rule_label] at hlabel
  cases matched
  simp only at hname hlabel htext hrange
  simp only [close, hrange, hname, hlabel, htext]
  rfl

/-- Tokenizing by a grammar step by step comes to what tokenizing by its rules comes to, whatever
waits for it. -/
def Runs (g : Grammar) : Prop :=
  ∀ base text outer nodes, base + Text.width text < UInt32.size →
    Forest.ofRules g.rules base text = .ok nodes →
    Reaches (.scanning (.start g base text) outer) (.returning nodes outer)

theorem Pending.exists_enter {p : Pending} {matched : Matched} (outer : List Pending)
    (hinside : ∀ inner, p.seat.pattern.inside = some inner → Runs inner)
    (h : Forest.TokenOf p.frame.base p.seat.lane.rule p.hit p.text matched)
    (hstart : p.frame.base + p.hit.contextEnd + Text.width p.text < UInt32.size)
    (hstop : p.frame.base + p.hit.stop < UInt32.size) :
    ∃ s, p.enter outer = .ok s ∧
      Reaches s (.scanning (p.frame.behind p.index p.seat p.hit matched) outer) := by
  have hclose := close_of_tokenOf h hstop
  have hrule : p.seat.lane.rule.inside =
      p.seat.pattern.inside.map fun inner => Forest.ofRules inner.rules := by
    rw [p.seat.rule_eq, Pattern.rule_inside]
  cases hpattern : p.seat.pattern.inside with
  | none =>
      rw [hpattern] at hrule
      rw [h.childless hrule] at hclose
      refine ⟨_, ?_, .refl⟩
      simp only [enter, hpattern, hclose]
      rfl
  | some inner =>
      rw [hpattern] at hrule
      have hruns := hinside inner hpattern _ _ (p :: outer) _ hstart (h.children_eq _ hrule)
      refine ⟨.scanning (.start inner (p.frame.base + p.hit.contextEnd) p.text) (p :: outer), ?_,
        hruns.tail ?_⟩
      · simp only [enter, hpattern]
      · simp only [step, hclose]
        rfl

/-- A frame at the end of a run of literal text. Its nodes and those for the steps still to come
make up `nodes`. -/
structure Frame.Follows (f : Frame) (run : Forest.Run) (steps : List Step) (nodes : List Node) :
    Prop where
  text_eq : f.text = run.place.text
  cursor_eq : f.cursor = run.place.offset
  lt : f.base + Text.width f.text < UInt32.size
  sound : run.Sound
  build_eq : ∃ pending done rest, run.literal f.base = .ok pending ∧ f.nodes = pending ++ done ∧
    Plain.Closed done ∧ Forest.build f.base run steps = .ok rest ∧ nodes = done.reverse ++ rest

namespace Frame.Follows

variable {f : Frame} {run : Forest.Run} {steps : List Step} {nodes : List Node}

theorem withSeats (h : f.Follows run steps nodes) (seats : List (Seat f.grammar))
    (again : Option Nat) :
    Frame.Follows { f with seats := seats, again := again } run steps nodes :=
  ⟨h.text_eq, h.cursor_eq, h.lt, h.sound, h.build_eq⟩

theorem place_eq (h : f.Follows run steps nodes) : place f.text f.cursor = .ok run.place := by
  rw [h.text_eq, h.cursor_eq, place_offset]

theorem lt_place (h : f.Follows run steps nodes) :
    f.base + Text.width run.place.text < UInt32.size :=
  h.text_eq ▸ h.lt

theorem reverse_eq (h : f.Follows run [] nodes) : f.nodes.reverse = nodes := by
  obtain ⟨pending, done, rest, hliteral, hnodes, -, hbuild, rfl⟩ := h.build_eq
  rw [Forest.build, hliteral] at hbuild
  cases hbuild
  rw [hnodes, List.reverse_append, Forest.Run.reverse_literal h.sound h.lt_place hliteral]

theorem skip {char : Char} {d : Cursor} (h : f.Follows run (.skip d.offset :: steps) nodes)
    (hnext : run.place.next? = some (char, d)) :
    ∃ made run', f.skip = .ok { f with nodes := made, cursor := d.offset } ∧ run'.place = d ∧
      Frame.Follows { f with nodes := made, cursor := d.offset } run' steps nodes := by
  obtain ⟨pending, done, rest, hliteral, hnodes, hclosed, hbuild, rfl⟩ := h.build_eq
  rw [Forest.build] at hbuild
  obtain ⟨run', hextend, hbuild⟩ := exists_of_bind_eq_ok hbuild
  obtain ⟨hsound', -, hle, hoffset⟩ := h.sound.extend hextend
  have htext : run'.place.text = run.place.text := Cursor.text_eq_of_le hle
  obtain ⟨pending', hliteral'⟩ := Forest.Run.exists_literal hsound' (htext ▸ h.lt_place)
  refine ⟨pending' ++ done, run', ?_, h.sound.place_of_extend_next hnext hextend,
    h.text_eq.trans htext.symm, hoffset.symm, h.lt, hsound',
    pending', done, rest, hliteral', rfl, hclosed, hbuild, rfl⟩
  obtain ⟨hafter, hbefore⟩ := Cursor.next?_eq_some_iff.mp hnext
  have hstop : run.place.offset + char.utf8Size = d.offset := by
    have hwidth : d.offset = run.place.offset + Text.width [char] :=
      Cursor.offset_eq_of_append (by simpa using hbefore)
    simpa using hwidth.symm
  have hrest : part f.text f.cursor (Text.width f.text) = .ok run.place.after := by
    rw [h.text_eq, h.cursor_eq]
    refine part_eq_ok_iff.mpr ⟨run.place.before.reverse, [], by simp [Cursor.text], ?_, ?_⟩
    · rw [Text.width_reverse, run.place.offset_eq]
    · rw [Cursor.text, Text.width_append, Text.width_reverse, run.place.offset_eq]
  have hpush := pushLiteral_of_extend h.sound h.lt_place hextend
    (Nat.ne_of_gt (Cursor.offset_lt_of_next? hnext)) hliteral hliteral' hclosed
  rw [← h.text_eq, ← hnodes, ← h.cursor_eq] at hpush
  rw [← h.cursor_eq] at hstop
  simp only [Frame.skip, hrest, hafter, bind, Except.bind, List.head?_cons, Option.map_some,
    Option.getD_some, hstop, hpush]
  rfl

theorem addContext_eq {hit : Hit} {run' : Forest.Run} {pending before done : List Node}
    (h : f.Follows run steps nodes) (hstart : hit.start = run.place.offset)
    (hextend : run.extend f.base hit.contextEnd = .ok run')
    (hliteral : run.literal f.base = .ok pending) (hbefore : run'.literal f.base = .ok before)
    (hnodes : f.nodes = pending ++ done) (hclosed : Plain.Closed done) :
    f.addContext hit = .ok (before ++ done) := by
  unfold addContext
  split
  next hlt =>
    have hne : hit.contextEnd ≠ run.place.offset := by omega
    have hpush :=
      pushLiteral_of_extend h.sound h.lt_place hextend hne hliteral hbefore hclosed
    rwa [← h.text_eq, ← hnodes, ← hstart] at hpush
  next hnot =>
    have heq : hit.contextEnd = run.place.offset := by
      have := hit.start_le_contextEnd
      omega
    rcases Forest.Run.eq_of_extend_eq_ok hextend with ⟨-, rfl⟩ | ⟨-, -, hne, -⟩
    · rw [hbefore] at hliteral
      cases hliteral
      rw [hnodes]
    · exact absurd heq hne

/-- A frame that takes a hit comes to follow the scan from the end of the hit on. -/
theorem take (outer : List Pending) {i : Nat} {seat : Seat f.grammar} {hit : Hit} {d : Cursor}
    {front : List Char} (h : f.Follows run (.take seat.lane.rule hit :: steps) nodes)
    (hinside : ∀ inner, seat.pattern.inside = some inner → Runs inner)
    (hstart : hit.start = run.place.offset)
    (hread : run.place.readTo? hit.stop = some (front, d)) :
    ∃ made matched s, f.take i seat hit outer = .ok s ∧
      Reaches s (.scanning (Frame.behind { f with nodes := made } i seat hit matched) outer) ∧
      (Frame.behind { f with nodes := made } i seat hit matched).Follows (.start d) steps
        nodes := by
  obtain ⟨pending, done, rest, hliteral, hnodes, hclosed, hbuild, rfl⟩ := h.build_eq
  obtain ⟨run', before, node, place, after, hextend, hbefore, htoken, hafter, rfl⟩ :=
    Forest.exists_of_build_take hbuild
  obtain ⟨hsound', -, hle, hoffset⟩ := h.sound.extend hextend
  obtain ⟨text, matched, rfl, hread', hmatched⟩ := Forest.exists_tokenOf_of_token_eq_ok htoken
  have htext : run'.place.text = run.place.text := Cursor.text_eq_of_le hle
  obtain rfl := Cursor.eq_of_readTo? htext hread' hread
  have hplace : place.text = run.place.text :=
    (Cursor.text_eq_of_le (Cursor.le_of_readTo? hread')).trans htext
  have hcontext := addContext_eq h hstart hextend hliteral hbefore hnodes hclosed
  have hpart := part_of_readTo? hread'
  rw [htext, ← h.text_eq, hoffset] at hpart
  have hfits : f.base + hit.stop < UInt32.size :=
    (Cursor.boundary_of_readTo? hread').add_lt (htext ▸ h.lt_place)
  have hwidth := Cursor.offset_add_width_of_readTo? hread'
  obtain ⟨s, henter, hreaches⟩ := Pending.exists_enter
    (p := ⟨{ f with nodes := before ++ done }, i, seat, hit, text⟩) outer hinside
    hmatched (by simp only; omega) hfits
  refine ⟨before ++ done, matched, s, ?_, hreaches,
    h.text_eq.trans hplace.symm, (Cursor.offset_of_readTo? hread').symm, h.lt,
    Forest.Run.sound_start place, [], .matched matched :: (before ++ done), after, rfl, rfl,
    Plain.closed_matched matched (before ++ done), hafter, ?_⟩
  · simp only [Frame.take, hcontext, hpart, bind, Except.bind]
    exact henter
  · have hreverse := Forest.Run.reverse_literal hsound' (htext ▸ h.lt_place) hbefore
    simp [hreverse]

end Frame.Follows

end Highlight.Machine
