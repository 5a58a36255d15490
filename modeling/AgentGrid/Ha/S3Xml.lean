import AgentGrid.Foundation.Cutting
import AgentGrid.Foundation.Substrings

/-!
# Values in a listing of the object store

The client reads a listing without an XML parser: it cuts the texts between an
opening tag and the next closing tag, and undoes the five predefined entities one
after the other.  A character of a value is written as it is or as its entity.
-/

namespace AgentGrid.Ha

open AgentGrid.Foundation

abbrev Text : Type := List Char

/-! ## Reading -/

def openTag (tag : Text) : Text := '<' :: (tag ++ ['>'])

def closeTag (tag : Text) : Text := '<' :: '/' :: (tag ++ ['>'])

/-- One round of the loop: both tags are found, or the loop ends. -/
def cutValue (tag : Text) : Cutter Char Text := fun rest =>
  match rest.dropInfix? (openTag tag) with
  | none => none
  | some (_, after) => after.dropInfix? (closeTag tag)

def xmlValuesFrom (tag : Text) : Nat → Text → List Text
  | 0, _ => []
  | fuel + 1, rest =>
      match cutValue tag rest with
      | none => []
      | some (value, rest) => value :: xmlValuesFrom tag fuel rest

/-- Each round takes some of the body, so the loop has no more rounds than that. -/
def xmlValues (body tag : Text) : List Text := xmlValuesFrom tag (body.length + 1) body

def xmlUnescape (s : Text) : Text :=
  let s := Passage.rewrite ['&', 'a', 'm', 'p', ';'] ['&'] s
  let s := Passage.rewrite ['&', 'l', 't', ';'] ['<'] s
  let s := Passage.rewrite ['&', 'g', 't', ';'] ['>'] s
  let s := Passage.rewrite ['&', 'q', 'u', 'o', 't', ';'] ['"'] s
  Passage.rewrite ['&', 'a', 'p', 'o', 's', ';'] ['\''] s

theorem cutValue_shrinking (tag : Text) : Cutter.Shrinking (cutValue tag) := by
  intro rest value after h
  rw [cutValue] at h
  cases hopen : rest.dropInfix? (openTag tag) with
  | none => simp [hopen] at h
  | some parts =>
      simp only [hopen] at h
      obtain ⟨⟨i, hrest, hi⟩, -⟩ := List.dropInfix?_eq_some_iff.mp hopen
      obtain ⟨⟨j, hafter, -⟩, -⟩ := List.dropInfix?_eq_some_iff.mp h
      obtain rfl : i = openTag tag := by simpa using hi
      rw [hrest, hafter]
      simp only [openTag, List.length_append, List.length_cons]
      omega

theorem xmlValuesFrom_drains {tag buf kept : Text} {values : List Text} {fuel : Nat}
    (h : Cutter.Drains (cutValue tag) buf values kept) (hfuel : values.length < fuel) :
    xmlValuesFrom tag fuel buf = values := by
  induction h generalizing fuel with
  | stop hstop =>
      cases fuel with
      | zero => rfl
      | succ fuel => simp [xmlValuesFrom, hstop]
  | next hnext _ ih =>
      cases fuel with
      | zero => simp at hfuel
      | succ fuel => simp [xmlValuesFrom, hnext, ih (by simpa using hfuel)]

theorem xmlValues_eq {tag body kept : Text} {values : List Text}
    (h : Cutter.Drains (cutValue tag) body values kept) : xmlValues body tag = values := by
  obtain ⟨pieces, rest, hdrains, hlength⟩ := (cutValue_shrinking tag).drains body
  obtain ⟨rfl, -⟩ := h.unique hdrains
  exact xmlValuesFrom_drains h (by omega)

/-! ## Writing -/

/-- The elements of a document that have this name hold these texts. -/
inductive Elements (tag : Text) : Text → List Text → Prop
  | nil {body : Text} : ¬ openTag tag <:+: body → Elements tag body []
  | cons {gap value rest : Text} {values : List Text} :
      ¬ openTag tag <:+: gap → '<' ∉ value → Elements tag rest values →
      Elements tag (gap ++ openTag tag ++ value ++ closeTag tag ++ rest) (value :: values)

theorem cutValue_element {tag gap value : Text} (htag : '<' ∉ tag)
    (hgap : ¬ openTag tag <:+: gap) (hvalue : '<' ∉ value) (rest : Text) :
    cutValue tag (gap ++ openTag tag ++ value ++ closeTag tag ++ rest) = some (value, rest) := by
  have hopen : (gap ++ openTag tag ++ (value ++ closeTag tag ++ rest)).dropInfix? (openTag tag) =
      some (gap, value ++ closeTag tag ++ rest) :=
    dropInfix?_first (by simp [htag]) hgap
  have hfree : ¬ closeTag tag <:+: value := fun h => hvalue (h.subset List.mem_cons_self)
  have hclose : (value ++ closeTag tag ++ rest).dropInfix? (closeTag tag) = some (value, rest) :=
    dropInfix?_first (by simp [htag]) hfree
  have hassoc : gap ++ openTag tag ++ value ++ closeTag tag ++ rest =
      gap ++ openTag tag ++ (value ++ closeTag tag ++ rest) := by simp
  rw [cutValue, hassoc, hopen]
  exact hclose

theorem xmlValues_of_elements {tag body : Text} (htag : '<' ∉ tag) {values : List Text}
    (h : Elements tag body values) : xmlValues body tag = values := by
  obtain ⟨kept, hdrains⟩ : ∃ kept, Cutter.Drains (cutValue tag) body values kept := by
    induction h with
    | nil hfree =>
        refine ⟨_, .stop ?_⟩
        rw [cutValue, dropInfix?_none hfree]
    | cons hgap hvalue _ ih =>
        obtain ⟨kept, hrest⟩ := ih
        exact ⟨kept, .next (cutValue_element htag hgap hvalue _) hrest⟩
  exact xmlValues_eq hdrains

/-! ## Documents -/

/-- A tag with the text after it. -/
structure Segment where
  name : Text
  text : Text
  plainName : '<' ∉ name ∧ '>' ∉ name
  plainText : '<' ∉ text

def Segment.render (s : Segment) : Text := '<' :: (s.name ++ '>' :: s.text)

def render (segments : List Segment) : Text := segments.flatMap Segment.render

/-- The elements of one name hold a text only. -/
inductive Leaves (tag : Text) : List Segment → List Text → Prop
  | nil : Leaves tag [] []
  | other {s : Segment} {rest : List Segment} {values : List Text} :
      s.name ≠ tag → Leaves tag rest values → Leaves tag (s :: rest) values
  | leaf {s s' : Segment} {rest : List Segment} {values : List Text} :
      s.name = tag → s'.name = '/' :: tag → s'.text = [] → Leaves tag rest values →
      Leaves tag (s :: s' :: rest) (s.text :: values)

namespace Leaves

variable {tag : Text} {segments others : List Segment} {values more : List Text}

theorem of_names (h : ∀ s ∈ segments, s.name ≠ tag) : Leaves tag segments [] := by
  induction segments with
  | nil => exact .nil
  | cons s segments ih =>
      exact .other (h s List.mem_cons_self) (ih fun s' hs' => h s' (List.mem_cons_of_mem _ hs'))

theorem append (h : Leaves tag segments values) (hmore : Leaves tag others more) :
    Leaves tag (segments ++ others) (values ++ more) := by
  induction h with
  | nil => exact hmore
  | other hname _ ih => exact .other hname ih
  | leaf hname hclose hempty _ ih => exact .leaf hname hclose hempty ih

end Leaves

/-- No opening tag begins inside a segment. -/
theorem Segment.free {tag : Text} {s : Segment} (hname : s.name ≠ tag) (htag : '>' ∉ tag) :
    ¬ openTag tag <:+: s.render := by
  intro h
  have hrest : '<' ∉ s.name ++ '>' :: s.text := by
    simp [s.plainName.1, s.plainText]
  rcases List.infix_cons_iff.mp h with h | h
  · obtain ⟨after, hafter⟩ := h
    have hsplit : tag ++ '>' :: after = s.name ++ '>' :: s.text := by
      simpa [openTag] using (List.cons.inj hafter).2
    apply hname
    rw [← takeWhile_ne_append s.plainName.2 s.text, ← hsplit, takeWhile_ne_append htag]
  · exact hrest (h.subset List.mem_cons_self)

/-- A tag does not reach over the beginning of another one. -/
theorem not_openTag_append {tag x y : Text} (htag : '<' ∉ tag) (hx : ¬ openTag tag <:+: x)
    (hy : ¬ openTag tag <:+: y) (hhead : y.head? = some '<' ∨ y = []) :
    ¬ openTag tag <:+: x ++ y := by
  rintro ⟨before, after, h⟩
  rcases hhead with hhead | rfl
  · obtain ⟨y, rfl⟩ : ∃ y', y = '<' :: y' := List.head?_eq_some_iff.mp hhead
    rw [List.append_assoc] at h
    rcases List.append_eq_append_iff.mp h with ⟨mid, rfl, hmid⟩ | ⟨mid, rfl, hmid⟩
    · rcases List.append_eq_append_iff.mp hmid with ⟨rest, rfl, -⟩ | ⟨rest, hrest, hafter⟩
      · exact hx ⟨before, rest, by simp⟩
      · cases mid with
        | nil => exact hy ⟨[], after, by simpa using hmid⟩
        | cons b mid =>
            obtain ⟨-, htail⟩ := List.cons.inj hrest
            cases rest with
            | nil => exact hx ⟨before, [], by rw [hrest]; simp⟩
            | cons c rest =>
                obtain ⟨rfl, -⟩ := List.cons.inj hafter
                have hmem : '<' ∈ tag ++ ['>'] := by
                  rw [htail]
                  simp
                simp [htag] at hmem
    · exact hy ⟨mid, after, by rw [hmid]; simp⟩
  · exact hx ⟨before, after, by simpa using h⟩

theorem render_head (segments : List Segment) :
    (render segments).head? = some '<' ∨ render segments = [] := by
  cases segments with
  | nil => exact .inr rfl
  | cons s segments => exact .inl rfl

theorem Elements.skip {tag x body : Text} {values : List Text} (htag : '<' ∉ tag)
    (hx : ¬ openTag tag <:+: x) (hhead : body.head? = some '<' ∨ body = [])
    (h : Elements tag body values) : Elements tag (x ++ body) values := by
  cases h with
  | nil hfree => exact .nil (not_openTag_append htag hx hfree hhead)
  | @cons gap value rest values hgap hvalue hrest =>
      have hgapHead : gap.head? = some '<' ∨ gap = [] := by
        cases gap with
        | nil => exact .inr rfl
        | cons c gap => exact hhead.imp (by simp) (by simp)
      have hfree := not_openTag_append htag hx hgap hgapHead
      simpa using Elements.cons hfree hvalue hrest

theorem Leaves.elements {tag : Text} (htag : '<' ∉ tag ∧ '>' ∉ tag) {segments : List Segment}
    {values : List Text} (h : Leaves tag segments values) :
    Elements tag (render segments) values := by
  induction h with
  | nil => exact .nil (by simp [render, openTag])
  | @other s rest values hname _ ih =>
      exact ih.skip htag.1 (s.free hname htag.2) (render_head rest)
  | @leaf s s' rest values hname hclose hempty _ ih =>
      have hfree : ¬ openTag tag <:+: [] := by simp [openTag]
      have helement := Elements.cons hfree s.plainText ih
      simpa [render, Segment.render, openTag, closeTag, hname, hclose, hempty] using helement

/-! ## Entities -/

def entity (name : Text) : Text := '&' :: (name ++ [';'])

/-- The entities that are undone after the ampersands. -/
def marks : List (Char × Text) :=
  [('<', ['l', 't']), ('>', ['g', 't']), ('"', ['q', 'u', 'o', 't']), ('\'', ['a', 'p', 'o', 's'])]

/-- Some of the characters are written as their entities, the others as they are. -/
inductive Partly (left : List (Char × Text)) : Text → Text → Prop
  | nil : Partly left [] []
  | plain {c : Char} {s e : Text} : Partly left s e → Partly left (c :: s) (c :: e)
  | entity {c : Char} {name s e : Text} : (c, name) ∈ left → Partly left s e →
      Partly left (c :: s) (entity name ++ e)

/-- What XML asks for: no ampersand and no opening bracket stands as it is. -/
inductive Escaped : Text → Text → Prop
  | nil : Escaped [] []
  | plain {c : Char} {s e : Text} : c ≠ '&' → c ≠ '<' → Escaped s e → Escaped (c :: s) (c :: e)
  | ampersand {s e : Text} : Escaped s e → Escaped ('&' :: s) (entity ['a', 'm', 'p'] ++ e)
  | mark {c : Char} {name s e : Text} : (c, name) ∈ marks → Escaped s e →
      Escaped (c :: s) (entity name ++ e)

/-- The text holds what reads as an entity for a character other than the ampersand. -/
def ShowsEntity (s : Text) : Prop := ∃ p ∈ marks, entity p.2 <:+: s

/-- The last four replacements on their own. -/
def unmark (left : List (Char × Text)) (s : Text) : Text :=
  left.foldl (fun s p => Passage.rewrite (entity p.2) [p.1] s) s

theorem xmlUnescape_unmark (s : Text) :
    xmlUnescape s = unmark marks (Passage.rewrite (entity ['a', 'm', 'p']) ['&'] s) := by
  simp only [xmlUnescape, unmark, marks, entity, List.foldl_cons, List.foldl_nil,
    List.cons_append, List.nil_append]

theorem marks_spec {p : Char × Text} (h : p ∈ marks) :
    p.1 ≠ '&' ∧ '&' ∉ p.2 ∧ ';' ∉ p.2 ∧ p.2 ≠ ['a', 'm', 'p'] ∧ ∀ q ∈ marks, q.1 ∉ entity p.2 := by
  have hall : ∀ p ∈ marks, p.1 ≠ '&' ∧ '&' ∉ p.2 ∧ ';' ∉ p.2 ∧ p.2 ≠ ['a', 'm', 'p'] ∧
      ∀ q ∈ marks, q.1 ∉ entity p.2 := by decide
  exact hall p h

theorem marks_unique {c d : Char} {name : Text} (hc : (c, name) ∈ marks)
    (hd : (d, name) ∈ marks) : c = d := by
  have hall : ∀ p ∈ marks, ∀ q ∈ marks, p.2 = q.2 → p.1 = q.1 := by decide
  exact hall _ hc _ hd rfl

theorem entity_ne_nil (name : Text) : entity name ≠ [] := List.cons_ne_nil _ _

/-- An entity ends at its semicolon. -/
theorem entity_unique {name other rest : Text} (hname : ';' ∉ name) (hother : ';' ∉ other)
    (h : entity name <+: entity other ++ rest) : name = other := by
  obtain ⟨tail, htail⟩ := h
  have heq : name ++ ';' :: tail = other ++ ';' :: rest := by
    simpa [entity] using htail
  rw [← takeWhile_ne_append hname tail, heq, takeWhile_ne_append hother]

theorem rewrite_entity {name other new : Text} (hname : ';' ∉ name) (hother : ';' ∉ other)
    (hamp : '&' ∉ other) (hne : name ≠ other) (e : Text) :
    Passage.rewrite (entity name) new (entity other ++ e) =
      entity other ++ Passage.rewrite (entity name) new e := by
  have hmiss : ¬ entity name <+: '&' :: (other ++ [';'] ++ e) := fun h =>
    hne (entity_unique hname hother h)
  have hrun : '&' ∉ other ++ [';'] := by simp [hamp]
  have hrest : Passage.rewrite (entity name) new (other ++ [';'] ++ e) =
      other ++ [';'] ++ Passage.rewrite (entity name) new e := Passage.rewrite_run hrun e
  have hcons : entity other ++ e = '&' :: (other ++ [';'] ++ e) := rfl
  rw [hcons, Passage.rewrite_cons hmiss, hrest]
  rfl

namespace Partly

variable {left : List (Char × Text)} {s e : Text}

theorem refl (s : Text) : Partly left s s := by
  induction s with
  | nil => exact .nil
  | cons c s ih => exact .plain ih

theorem eq_of_nil (h : Partly [] s e) : s = e := by
  induction h with
  | nil => rfl
  | plain _ ih => rw [ih]
  | entity hmem => exact absurd hmem List.not_mem_nil

/-- A stretch of the text in which no character has an entity is written as it is. -/
theorem of_text {run rest : Text} (h : Partly left (run ++ rest) e)
    (hrun : ∀ p ∈ left, p.1 ∉ run) : ∃ e', e = run ++ e' ∧ Partly left rest e' := by
  induction run generalizing e with
  | nil => exact ⟨e, rfl, h⟩
  | cons c run ih =>
      rw [List.cons_append] at h
      cases h with
      | plain hrest =>
          obtain ⟨e', rfl, he'⟩ := ih hrest fun p hp hmem => hrun p hp (List.mem_cons_of_mem _ hmem)
          exact ⟨e', rfl, he'⟩
      | entity hmem => exact absurd List.mem_cons_self (hrun _ hmem)

/-- A stretch of what is written without an ampersand stands in the text. -/
theorem of_written {run rest : Text} (h : Partly left s (run ++ rest)) (hrun : '&' ∉ run) :
    ∃ s', s = run ++ s' ∧ Partly left s' rest := by
  induction run generalizing s with
  | nil => exact ⟨s, rfl, h⟩
  | cons c run ih =>
      rw [List.cons_append] at h
      generalize hwritten : c :: (run ++ rest) = e at h
      cases h with
      | nil => simp at hwritten
      | plain hrest =>
          obtain ⟨rfl, rfl⟩ := List.cons.inj hwritten
          obtain ⟨s', rfl, hs'⟩ := ih hrest fun hmem => hrun (List.mem_cons_of_mem _ hmem)
          exact ⟨s', rfl, hs'⟩
      | entity =>
          obtain ⟨rfl, -⟩ := List.cons.inj hwritten
          exact absurd List.mem_cons_self hrun

/-- One replacement does to what is written what it does to the text, and leaves one
entity less. -/
theorem stage {c : Char} {name : Text} (hmem : (c, name) ∈ marks) (hleft : left ⊆ marks)
    (h : Partly ((c, name) :: left) s e) :
    Partly left (Passage.rewrite (Ha.entity name) [c] s)
      (Passage.rewrite (Ha.entity name) [c] e) := by
  obtain ⟨hc, hamp, hsemi, -, hkeys⟩ := marks_spec hmem
  have hall : (c, name) :: left ⊆ marks := List.cons_subset.mpr ⟨hmem, hleft⟩
  induction hsize : s.length using Nat.strongRecOn generalizing s e with
  | _ size ih =>
      subst hsize
      by_cases hhit : Ha.entity name <+: s
      · obtain ⟨s', rfl⟩ := hhit
        obtain ⟨e', rfl, he'⟩ := h.of_text fun p hp => hkeys p (hall hp)
        have hless : s'.length < (Ha.entity name ++ s').length := by
          simp only [Ha.entity, List.length_append, List.length_cons]
          omega
        rw [Passage.rewrite_match (entity_ne_nil name), Passage.rewrite_match (entity_ne_nil name)]
        exact .plain (ih s'.length hless he' rfl)
      · cases h with
        | nil => exact .nil
        | @plain d s e hrest =>
            have hmiss : ¬ Ha.entity name <+: d :: e := by
              rintro ⟨e', he'⟩
              obtain ⟨rfl, rfl⟩ := List.cons.inj he'
              have hrun : '&' ∉ name ++ [';'] := by simpa using hamp
              obtain ⟨s', rfl, -⟩ := hrest.of_written hrun
              exact hhit ⟨s', rfl⟩
            rw [Passage.rewrite_cons hhit, Passage.rewrite_cons hmiss]
            exact .plain (ih s.length (by simp) hrest rfl)
        | @entity d other s e hother hrest =>
            have hrec := ih s.length (by simp) hrest rfl
            obtain ⟨-, hampOther, hsemiOther, -, -⟩ := marks_spec (hall hother)
            rw [Passage.rewrite_cons hhit]
            by_cases hsame : name = other
            · subst hsame
              obtain rfl : c = d := marks_unique hmem (hall hother)
              rw [Passage.rewrite_match (entity_ne_nil name)]
              exact .plain hrec
            · have hkept : (d, other) ∈ left := by
                rcases List.mem_cons.mp hother with h | h
                · exact absurd (congrArg Prod.snd h).symm hsame
                · exact h
              rw [rewrite_entity hsemi hsemiOther hampOther hsame]
              exact .entity hkept hrec

theorem unmark_eq (hleft : left ⊆ marks) (h : Partly left s e) : unmark left e = unmark left s := by
  induction left generalizing s e with
  | nil => rw [h.eq_of_nil]
  | cons p left ih =>
      obtain ⟨hp, hrest⟩ := List.cons_subset.mp hleft
      exact ih hrest (h.stage hp hrest)

end Partly

namespace Escaped

variable {s e : Text}

/-- The first replacement leaves the ampersands as they are in the text. -/
theorem ampersands (h : Escaped s e) :
    Partly marks s (Passage.rewrite (entity ['a', 'm', 'p']) ['&'] e) := by
  have hsemi : ';' ∉ ['a', 'm', 'p'] := by decide
  induction h with
  | nil => exact .nil
  | @plain c s e hamp _ _ ih =>
      have hmiss : ¬ entity ['a', 'm', 'p'] <+: c :: e := by
        rintro ⟨rest, hrest⟩
        exact hamp (List.cons.inj hrest).1.symm
      rw [Passage.rewrite_cons hmiss]
      exact .plain ih
  | ampersand _ ih =>
      rw [Passage.rewrite_match (entity_ne_nil _)]
      exact .plain ih
  | mark hmem _ ih =>
      obtain ⟨-, hampName, hsemiName, hname, -⟩ := marks_spec hmem
      rw [rewrite_entity hsemi hsemiName hampName (Ne.symm hname)]
      exact .entity hmem ih

theorem no_bracket (h : Escaped s e) : '<' ∉ e := by
  induction h with
  | nil => exact List.not_mem_nil
  | plain _ hlt _ ih => simp [ih, Ne.symm hlt]
  | ampersand _ ih =>
      have hname : '<' ∉ entity ['a', 'm', 'p'] := by decide
      exact List.not_mem_append hname ih
  | mark hmem _ ih =>
      have hname := (marks_spec hmem).2.2.2.2 ('<', ['l', 't']) (by decide)
      exact List.not_mem_append hname ih

/-- What is undone after the ampersands is also undone in the text itself. -/
theorem xmlUnescape_eq (h : Escaped s e) : xmlUnescape e = unmark marks s := by
  rw [xmlUnescape_unmark]
  exact h.ampersands.unmark_eq (List.Subset.refl marks)

end Escaped

theorem length_unmark (left : List (Char × Text)) (s : Text) :
    (unmark left s).length ≤ s.length := by
  induction left generalizing s with
  | nil => exact le_refl _
  | cons p left ih =>
      have hshort : [p.1].length < (entity p.2).length := by simp [entity]
      exact (ih _).trans (Passage.length_rewrite (entity_ne_nil p.2) hshort s).1

theorem unmark_eq_iff (left : List (Char × Text)) (s : Text) :
    unmark left s = s ↔ ∀ p ∈ left, ¬ entity p.2 <:+: s := by
  induction left with
  | nil => simp [unmark]
  | cons p left ih =>
      have hshort : [p.1].length < (entity p.2).length := by simp [entity]
      have hstep : unmark (p :: left) s = unmark left (Passage.rewrite (entity p.2) [p.1] s) := rfl
      rw [List.forall_mem_cons, hstep]
      by_cases hshown : entity p.2 <:+: s
      · have hless := (Passage.length_rewrite (entity_ne_nil p.2) hshort s).2 hshown
        have hle := length_unmark left (Passage.rewrite (entity p.2) [p.1] s)
        refine iff_of_false (fun h => ?_) fun h => h.1 hshown
        rw [h] at hle
        omega
      · rw [Passage.rewrite_of_free hshown, ih]
        exact (and_iff_right hshown).symm

theorem xmlUnescape_eq_iff {s e : Text} (h : Escaped s e) :
    xmlUnescape e = s ↔ ¬ ShowsEntity s := by
  rw [h.xmlUnescape_eq, unmark_eq_iff]
  simp [ShowsEntity]

/-! ## A listing -/

/-- A list response: its keys, in order, and how the server wrote each of them. -/
structure ListResponse where
  body : Text
  keys : List Text
  written : List Text
  elements : Elements "Key".toList body written
  escaped : List.Forall₂ Escaped keys written

/-- The keys the client takes from a response. -/
def listedKeys (body : Text) : List Text := (xmlValues body "Key".toList).map xmlUnescape

theorem map_xmlUnescape_eq_iff {keys written : List Text} (h : List.Forall₂ Escaped keys written) :
    written.map xmlUnescape = keys ↔ ∀ key ∈ keys, ¬ ShowsEntity key := by
  induction h with
  | nil => simp
  | cons hkey _ ih => rw [List.map_cons, List.cons.injEq, xmlUnescape_eq_iff hkey, ih,
      List.forall_mem_cons]

theorem listedKeys_eq_iff (r : ListResponse) :
    listedKeys r.body = r.keys ↔ ∀ key ∈ r.keys, ¬ ShowsEntity key := by
  have hvalues : xmlValues r.body "Key".toList = r.written :=
    xmlValues_of_elements (by decide) r.elements
  rw [listedKeys, hvalues]
  exact map_xmlUnescape_eq_iff r.escaped

/-! ## The server of the tests -/

def xmlEscape (s : Text) : Text :=
  let s := Passage.rewrite ['&'] ['&', 'a', 'm', 'p', ';'] s
  let s := Passage.rewrite ['<'] ['&', 'l', 't', ';'] s
  Passage.rewrite ['>'] ['&', 'g', 't', ';'] s

def listHead : Text :=
  "<?xml version=\"1.0\" encoding=\"UTF-8\"?>".toList ++
    "<ListBucketResult><IsTruncated>false</IsTruncated>".toList

def contents (key : Text) : Text :=
  "<Contents><Key>".toList ++ xmlEscape key ++ "</Key></Contents>".toList

def listBody (keys : List Text) : Text :=
  listHead ++ (keys.flatMap contents ++ "</ListBucketResult>".toList)

theorem xmlEscape_eq (s : Text) : xmlEscape s = s.flatMap fun c =>
    if c = '&' then ['&', 'a', 'm', 'p', ';'] else if c = '<' then ['&', 'l', 't', ';']
    else if c = '>' then ['&', 'g', 't', ';'] else [c] := by
  simp only [xmlEscape, Passage.rewrite_single, List.flatMap_assoc]
  refine List.flatMap_congr fun c _ => ?_
  by_cases hamp : c = '&'
  · subst hamp
    decide
  · by_cases hlt : c = '<'
    · subst hlt
      decide
    · simp [hamp, hlt]

theorem xmlEscape_escaped (s : Text) : Escaped s (xmlEscape s) := by
  rw [xmlEscape_eq]
  induction s with
  | nil => exact .nil
  | cons c s ih =>
      rw [List.flatMap_cons]
      split
      · rename_i hc
        subst hc
        exact .ampersand ih
      · rename_i hamp
        split
        · rename_i hc
          subst hc
          exact .mark (show ('<', ['l', 't']) ∈ marks by decide) ih
        · rename_i hlt
          split
          · rename_i hc
            subst hc
            exact .mark (show ('>', ['g', 't']) ∈ marks by decide) ih
          · exact .plain hamp hlt ih

/-- A tag with nothing after it. -/
def mark (name : Text) (h : '<' ∉ name ∧ '>' ∉ name) : Segment := ⟨name, [], h, List.not_mem_nil⟩

def keySegments (key : Text) : List Segment :=
  [mark "Contents".toList (by decide),
    ⟨"Key".toList, xmlEscape key, by decide, (xmlEscape_escaped key).no_bracket⟩,
    mark "/Key".toList (by decide), mark "/Contents".toList (by decide)]

def headSegments : List Segment :=
  [mark "?xml version=\"1.0\" encoding=\"UTF-8\"?".toList (by decide),
    mark "ListBucketResult".toList (by decide),
    ⟨"IsTruncated".toList, "false".toList, by decide, by decide⟩,
    mark "/IsTruncated".toList (by decide)]

def lastTag : Segment := mark "/ListBucketResult".toList (by decide)

theorem contents_eq (key : Text) : contents key = render (keySegments key) := by
  have hopen : "<Contents><Key>".toList = '<' :: ("Contents".toList ++ '>' :: '<' ::
      ("Key".toList ++ ['>'])) := by
    decide +kernel
  have hclose : "</Key></Contents>".toList = '<' :: ("/Key".toList ++ '>' :: '<' ::
      ("/Contents".toList ++ ['>'])) := by
    decide +kernel
  have hjoin := congrArg₂ (fun before after => before ++ xmlEscape key ++ after) hopen hclose
  refine hjoin.trans ?_
  simp only [keySegments, mark, render, Segment.render, List.flatMap_cons, List.flatMap_nil,
    List.cons_append, List.append_assoc, List.nil_append, List.append_nil]

theorem leaves_keys (keys : List Text) :
    Leaves "Key".toList (keys.flatMap keySegments) (keys.map xmlEscape) := by
  induction keys with
  | nil => exact .nil
  | cons key keys ih =>
      have hkey : Leaves "Key".toList (keySegments key) [xmlEscape key] :=
        .other (by decide) (.leaf rfl rfl rfl (.other (by decide) .nil))
      exact hkey.append ih

theorem listBody_eq (keys : List Text) :
    listBody keys = render (headSegments ++ (keys.flatMap keySegments ++ [lastTag])) := by
  have hhead : listHead = render headSegments := by decide +kernel
  have hlast : "</ListBucketResult>".toList = render [lastTag] := by decide +kernel
  have hkeys : keys.flatMap contents = render (keys.flatMap keySegments) := by
    rw [render, List.flatMap_assoc]
    exact List.flatMap_congr fun key _ => contents_eq key
  rw [listBody, hhead, hlast, hkeys]
  simp only [render, List.flatMap_append]

theorem listBody_elements (keys : List Text) :
    Elements "Key".toList (listBody keys) (keys.map xmlEscape) := by
  have hhead : Leaves "Key".toList headSegments [] := .of_names (by decide)
  have hlast : Leaves "Key".toList [lastTag] [] := .of_names (by decide)
  have hall := hhead.append ((leaves_keys keys).append hlast)
  rw [List.append_nil, List.nil_append] at hall
  rw [listBody_eq]
  exact hall.elements (by decide)

theorem escaped_map (keys : List Text) : List.Forall₂ Escaped keys (keys.map xmlEscape) := by
  induction keys with
  | nil => exact .nil
  | cons key keys ih => exact .cons (xmlEscape_escaped key) ih

def mockListing (keys : List Text) : ListResponse where
  body := listBody keys
  keys := keys
  written := keys.map xmlEscape
  elements := listBody_elements keys
  escaped := escaped_map keys

def ampersandKey : Text := "ha/prod/artifacts/&lt;".toList

theorem entity_key_undone_twice :
    (mockListing [ampersandKey]).keys = [ampersandKey] ∧
      listedKeys (mockListing [ampersandKey]).body = ["ha/prod/artifacts/<".toList] ∧
      "ha/prod/artifacts/<".toList ≠ ampersandKey := by
  have hvalues : xmlValues (mockListing [ampersandKey]).body "Key".toList =
      [xmlEscape ampersandKey] :=
    xmlValues_of_elements (by decide) (mockListing [ampersandKey]).elements
  refine ⟨rfl, ?_, by decide⟩
  rw [listedKeys, hvalues]
  decide +kernel

end AgentGrid.Ha
