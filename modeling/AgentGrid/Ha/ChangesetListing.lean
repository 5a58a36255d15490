import AgentGrid.Ha.Changesets
import Mathlib.Data.List.Sort

/-!
# Listing changesets

A listing asks for one page after the other, from a key on and then from a
continuation token on, and stops after twenty pages.  The object store is a parameter
that answers each request from the objects it holds at that time.
-/

namespace AgentGrid.Ha

open AgentGrid.Foundation
open AgentGrid.Node (Json)

/-! ## The client -/

def maxListPages : Nat := 20

/-- `max-keys` of every request. -/
def maxKeys : Nat := 1000

structure ListQuery where
  keyPrefix : Text
  startAfter : Option Text
  token : Option Text

/-- The answer to each request by its number; nothing is a request that fails. -/
abbrev Service : Type := Nat → ListQuery → Option Text

def keyTag : Text := "Key".toList

def truncatedTag : Text := "IsTruncated".toList

def tokenTag : Text := "NextContinuationToken".toList

def isTruncated (body : Text) : Bool :=
  (xmlValues body truncatedTag).head?.any fun v => v.map Char.toLower == "true".toList

def nextToken (body : Text) : Option Text := (xmlValues body tokenTag).head?.map xmlUnescape

/-- The pages the loop reads, with this many rounds left. -/
def readPages (service : Service) : Nat → Nat → ListQuery → Option (List Text)
  | 0, _, _ => some []
  | left + 1, number, q =>
      match service number q with
      | none => none
      | some body =>
          if isTruncated body then
            match nextToken body with
            | none => some [body]
            | some token =>
                (readPages service left (number + 1) { q with token := some token }).map
                  (body :: ·)
          else some [body]

def listFrom (service : Service) (ns keyPrefix : Text) (startAfter : Option Text) :
    Option (List Text) :=
  (readPages service maxListPages 0
    ⟨objectKey ns keyPrefix, startAfter.map (objectKey ns), none⟩).map
      fun bodies => (bodies.flatMap listedKeys).mergeSort (· ≤ ·)

def listChangesetsAfter (service : Service) (ns : Text) (afterSeq : UInt64) :
    Option (List Text) :=
  (listFrom service ns changesetsPrefix (some (changesetsPrefix ++ padded20 afterSeq))).map
    (·.filter (binSuffix.isSuffixOf ·))

/-- The first request of `listChangesetsAfter`. -/
def changesetsQuery (ns : Text) (afterSeq : UInt64) : ListQuery :=
  ⟨objectKey ns changesetsPrefix, some (objectKey ns (changesetsPrefix ++ padded20 afterSeq)),
    none⟩

/-! ## The object store -/

/-- What a page starts after: a token counts more than a key. -/
def ListQuery.start (position : Text → Text) (q : ListQuery) : Option Text :=
  match q.token with
  | some token => some (position token)
  | none => q.startAfter

/-- The objects a request asks for. -/
def ListQuery.Asks (position : Text → Text) (q : ListQuery) (key : Text) : Prop :=
  q.keyPrefix <+: key ∧ ∀ start ∈ q.start position, start < key

/-- A page holds all the objects there are, or those up to where its token stands. -/
inductive Answers (bucket : Text → Prop) (position : Text → Text) (q : ListQuery) : Text → Prop
  | last (r : ListResponse) :
      Elements truncatedTag r.body ["false".toList] → Elements tokenTag r.body [] →
      r.keys.length ≤ maxKeys →
      (∀ key, key ∈ r.keys ↔ bucket key ∧ q.Asks position key) →
      Answers bucket position q r.body
  | more (r : ListResponse) {token written : Text} :
      Elements truncatedTag r.body ["true".toList] → Elements tokenTag r.body [written] →
      Escaped token written → ¬ ShowsEntity token → r.keys.length ≤ maxKeys →
      (∀ key, key ∈ r.keys ↔ bucket key ∧ q.Asks position key ∧ key ≤ position token) →
      Answers bucket position q r.body

/-- The objects may change between the requests. -/
def Serves (bucket : Nat → Text → Prop) (position : Text → Text) (service : Service) : Prop :=
  ∀ number q body, service number q = some body → Answers (bucket number) position q body

/-! ## What is listed -/

theorem isTruncated_of_elements {body value : Text} (h : Elements truncatedTag body [value]) :
    isTruncated body = (value.map Char.toLower == "true".toList) := by
  have hvalues : xmlValues body truncatedTag = [value] :=
    xmlValues_of_elements (by decide) h
  rw [isTruncated, hvalues]
  rfl

theorem nextToken_of_elements {body token written : Text}
    (h : Elements tokenTag body [written]) (hescaped : Escaped token written)
    (hplain : ¬ ShowsEntity token) : nextToken body = some token := by
  have hvalues : xmlValues body tokenTag = [written] :=
    xmlValues_of_elements (by decide) h
  rw [nextToken, hvalues, List.head?_cons, Option.map_some,
    (xmlUnescape_eq_iff hescaped).mpr hplain]

theorem listedKeys_of_plain {r : ListResponse} (h : ∀ key ∈ r.keys, ¬ ShowsEntity key) :
    listedKeys r.body = r.keys := by
  have hvalues : xmlValues r.body keyTag = r.written := xmlValues_of_elements (by decide) r.elements
  rw [listedKeys, ← keyTag, hvalues]
  exact (map_xmlUnescape_eq_iff r.escaped).mpr h

variable {bucket : Nat → Text → Prop} {position : Text → Text} {service : Service}

/-- An object that is not listed comes after all that is, and every page was full. -/
theorem readPages_omits (hserves : Serves bucket position service)
    (hplain : ∀ number key, bucket number key → ¬ ShowsEntity key) {key : Text}
    (hstored : ∀ number, bucket number key) {left number : Nat} {q : ListQuery}
    (hasks : q.Asks position key) {bodies : List Text}
    (h : readPages service left number q = some bodies) :
    key ∈ bodies.flatMap listedKeys ∨
      (bodies.length = left ∧ (∀ body ∈ bodies, isTruncated body = true) ∧
        ∀ other ∈ bodies.flatMap listedKeys, other < key) := by
  induction left generalizing number q bodies with
  | zero =>
      obtain rfl : bodies = [] := (Option.some_inj.mp h).symm
      exact .inr ⟨rfl, by simp, by simp⟩
  | succ left ih =>
      rw [readPages] at h
      cases hbody : service number q with
      | none => simp [hbody] at h
      | some body =>
          simp only [hbody] at h
          cases hserves number q body hbody with
          | last r hflag _ _ hkeys =>
              have hlast : isTruncated r.body = false := by
                rw [isTruncated_of_elements hflag]
                decide
              rw [hlast] at h
              obtain rfl : bodies = [r.body] := (Option.some_inj.mp h).symm
              have hlisted : listedKeys r.body = r.keys :=
                listedKeys_of_plain fun k hk => hplain number k ((hkeys k).mp hk).1
              left
              rw [List.flatMap_singleton, hlisted]
              exact (hkeys key).mpr ⟨hstored number, hasks⟩
          | @more r token written hflag htoken hescaped hshows _ hkeys =>
              have hmore : isTruncated r.body = true := by
                rw [isTruncated_of_elements hflag]
                decide
              have hlisted : listedKeys r.body = r.keys :=
                listedKeys_of_plain fun k hk => hplain number k ((hkeys k).mp hk).1
              rw [hmore, nextToken_of_elements htoken hescaped hshows] at h
              obtain ⟨rest, hrest, rfl⟩ := Option.map_eq_some_iff.mp h
              rw [List.flatMap_cons, hlisted]
              by_cases hle : key ≤ position token
              · exact .inl (List.mem_append_left _
                  ((hkeys key).mpr ⟨hstored number, hasks, hle⟩))
              · have hafter : position token < key := not_le.mp hle
                have hasks' : ListQuery.Asks position { q with token := some token } key :=
                  ⟨hasks.1, fun start hstart => by
                    obtain rfl := Option.some_inj.mp hstart
                    exact hafter⟩
                rcases ih hasks' hrest with hin | ⟨hlength, hall, hbefore⟩
                · exact .inl (List.mem_append_right _ hin)
                · refine .inr ⟨by rw [List.length_cons, hlength], ?_, ?_⟩
                  · exact List.forall_mem_cons.mpr ⟨hmore, hall⟩
                  · intro other hother
                    rcases List.mem_append.mp hother with hother | hother
                    · exact lt_of_le_of_lt ((hkeys other).mp hother).2.2 hafter
                    · exact hbefore other hother

theorem asks_changeset (ns : Text) {afterSeq f : UInt64} (h : afterSeq < f) (l : UInt64) :
    (changesetsQuery ns afterSeq).Asks position (changesetKey ns f l) := by
  have hkey : changesetKey ns f l = objectKey ns changesetsPrefix ++
      (padded20 f ++ '-' :: (padded20 l ++ binSuffix)) := by
    simp [changesetKey, objectKey]
  refine ⟨⟨_, hkey.symm⟩, ?_⟩
  intro start hstart
  obtain rfl : objectKey ns (changesetsPrefix ++ padded20 afterSeq) = start :=
    Option.some_inj.mp hstart
  have hstart : objectKey ns (changesetsPrefix ++ padded20 afterSeq) =
      objectKey ns changesetsPrefix ++ (padded20 afterSeq ++ []) := by
    simp [objectKey]
  rw [hkey, hstart, Numeral.append_lt_append_left_iff, padded20, padded20,
    Numeral.padded_append_lt_iff (by decide) (toNat_lt_pow _) (toNat_lt_pow _)]
  exact .inl (UInt64.lt_iff_toNat_lt.mp h)

theorem binSuffix_changesetKey (ns : Text) (f l : UInt64) :
    binSuffix.isSuffixOf (changesetKey ns f l) = true := by
  rw [List.isSuffixOf_iff_suffix]
  exact ⟨objectKey ns (changesetsPrefix ++ (padded20 f ++ '-' :: padded20 l)),
    by simp [changesetKey, objectKey]⟩

theorem mem_listChangesetsAfter {ns : Text} {afterSeq : UInt64} {keys : List Text}
    (h : listChangesetsAfter service ns afterSeq = some keys) :
    ∃ bodies, readPages service maxListPages 0 (changesetsQuery ns afterSeq) = some bodies ∧
      ∀ key, key ∈ keys ↔ key ∈ bodies.flatMap listedKeys ∧ binSuffix.isSuffixOf key = true := by
  obtain ⟨sorted, hsorted, rfl⟩ := Option.map_eq_some_iff.mp h
  obtain ⟨bodies, hbodies, rfl⟩ := Option.map_eq_some_iff.mp hsorted
  exact ⟨bodies, hbodies, fun key => by rw [List.mem_filter, List.mem_mergeSort]⟩

/-- Twenty pages were read, and the last of them did not end the listing. -/
def PagesExhausted (service : Service) (q : ListQuery) : Prop :=
  ∃ bodies, readPages service maxListPages 0 q = some bodies ∧
    bodies.length = maxListPages ∧ ∀ body ∈ bodies, isTruncated body = true

theorem listChangesetsAfter_omits (hserves : Serves bucket position service)
    (hplain : ∀ number key, bucket number key → ¬ ShowsEntity key) {ns : Text}
    {afterSeq : UInt64} {keys : List Text}
    (hkeys : listChangesetsAfter service ns afterSeq = some keys) {f l : UInt64}
    (hnew : afterSeq < f) (hstored : ∀ number, bucket number (changesetKey ns f l)) :
    changesetKey ns f l ∈ keys ∨
      (PagesExhausted service (changesetsQuery ns afterSeq) ∧
        ∀ key ∈ keys, key < changesetKey ns f l) := by
  obtain ⟨bodies, hbodies, hmem⟩ := mem_listChangesetsAfter hkeys
  rcases readPages_omits hserves hplain hstored (asks_changeset ns hnew l) hbodies with
    hin | ⟨hlength, hall, hbefore⟩
  · exact .inl ((hmem _).mpr ⟨hin, binSuffix_changesetKey ns f l⟩)
  · exact .inr ⟨⟨bodies, hbodies, hlength, hall⟩,
      fun key hkey => hbefore key ((hmem key).mp hkey).1⟩

end AgentGrid.Ha
