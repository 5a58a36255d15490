import AgentGrid.Ha.ChangesetListing
import Mathlib.Data.List.Nodup
import Mathlib.Data.List.Range

/-!
# The format of changesets

An object store over a sorted list of keys answers with full pages.  Envelopes and
keys come back as they were written, and a listing leaves a batch out only behind the
pages it reads.
-/

namespace AgentGrid.Ha

open AgentGrid.Foundation
open AgentGrid.Node (Json)

/-! ## A store over a list of keys -/

def flagText (more : Bool) : Text := if more then "true".toList else "false".toList

theorem flagText_plain (more : Bool) : '<' ∉ flagText more := by
  cases more with
  | false => decide
  | true => decide

theorem xmlEscape_plain (token : Text) : '<' ∉ xmlEscape token :=
  (xmlEscape_escaped token).no_bracket

def tokenSegments : Option Text → List Segment
  | none => []
  | some token =>
      [⟨tokenTag, xmlEscape token, by decide, xmlEscape_plain token⟩,
        mark ('/' :: tokenTag) (by decide)]

theorem listBucketResult_plain :
    '<' ∉ "ListBucketResult".toList ∧ '>' ∉ "ListBucketResult".toList := by
  decide

def pageSegments (keys : List Text) (token : Option Text) : List Segment :=
  [mark "ListBucketResult".toList listBucketResult_plain,
    ⟨truncatedTag, flagText token.isSome, by decide, flagText_plain _⟩,
    mark ('/' :: truncatedTag) (by decide)] ++
    (tokenSegments token ++ (keys.flatMap keySegments ++ [lastTag]))

theorem names_keySegments {tag : Text} (h : ∀ s ∈ keySegments [], s.name ≠ tag)
    (keys : List Text) : Leaves tag (keys.flatMap keySegments) [] := by
  apply Leaves.of_names
  intro s hs
  obtain ⟨key, -, hs⟩ := List.mem_flatMap.mp hs
  simp only [keySegments, List.mem_cons, List.not_mem_nil, or_false, forall_eq_or_imp,
    forall_eq] at h hs
  obtain ⟨h1, h2, h3, h4⟩ := h
  rcases hs with rfl | rfl | rfl | rfl
  · exact h1
  · exact h2
  · exact h3
  · exact h4

theorem leaves_page_keys (keys : List Text) (token : Option Text) :
    Leaves keyTag (pageSegments keys token) (keys.map xmlEscape) := by
  have htoken : Leaves keyTag (tokenSegments token) [] := by
    cases token with
    | none => exact .nil
    | some token => exact .other (show tokenTag ≠ keyTag by decide) (.other (by decide) .nil)
  have hlast : Leaves keyTag [lastTag] [] := .of_names (by decide)
  have hkeys : Leaves keyTag (keys.flatMap keySegments) (keys.map xmlEscape) := leaves_keys keys
  have hrest := htoken.append (hkeys.append hlast)
  rw [List.append_nil, List.nil_append] at hrest
  exact .other (by decide) (.other (show truncatedTag ≠ keyTag by decide)
    (.other (by decide) hrest))

theorem leaves_page_flag (keys : List Text) (token : Option Text) :
    Leaves truncatedTag (pageSegments keys token) [flagText token.isSome] := by
  have htoken : Leaves truncatedTag (tokenSegments token) [] := by
    cases token with
    | none => exact .nil
    | some token => exact .other (show tokenTag ≠ truncatedTag by decide) (.other (by decide) .nil)
  have hlast : Leaves truncatedTag [lastTag] [] := .of_names (by decide)
  have hkeys := @names_keySegments truncatedTag (by decide +kernel) keys
  exact .other (by decide) (.leaf rfl rfl rfl (htoken.append (hkeys.append hlast)))

theorem leaves_page_token (keys : List Text) (token : Option Text) :
    Leaves tokenTag (pageSegments keys token) (token.map xmlEscape).toList := by
  have htoken : Leaves tokenTag (tokenSegments token) (token.map xmlEscape).toList := by
    cases token with
    | none => exact .nil
    | some token => exact .leaf rfl rfl rfl .nil
  have hlast : Leaves tokenTag [lastTag] [] := .of_names (by decide)
  have hkeys := @names_keySegments tokenTag (by decide +kernel) keys
  have hrest := htoken.append (hkeys.append hlast)
  rw [List.append_nil, List.append_nil] at hrest
  exact .other (by decide) (.other (show truncatedTag ≠ tokenTag by decide)
    (.other (by decide) hrest))

def pageResponse (keys : List Text) (token : Option Text) : ListResponse where
  body := render (pageSegments keys token)
  keys := keys
  written := keys.map xmlEscape
  elements := (leaves_page_keys keys token).elements (by decide)
  escaped := escaped_map keys

/-- The keys a request asks for, in a store where a token is a key. -/
def askedKeys (stored : List Text) (q : ListQuery) : List Text :=
  stored.filter fun key => q.keyPrefix.isPrefixOf key && (q.start id).all fun s => decide (s < key)

def shelf (stored : List Text) : Service := fun _ q =>
  let page := (askedKeys stored q).take maxKeys
  some (pageResponse page
    (if (askedKeys stored q).length ≤ maxKeys then none else page.getLast?)).body

theorem mem_askedKeys {stored : List Text} {q : ListQuery} {key : Text} :
    key ∈ askedKeys stored q ↔ key ∈ stored ∧ q.Asks id key := by
  have hstart : (q.start id).all (fun s => decide (s < key)) = true ↔
      ∀ start ∈ q.start id, start < key := by
    cases q.start id with
    | none => simp
    | some start => simp
  rw [askedKeys, List.mem_filter, Bool.and_eq_true, List.isPrefixOf_iff_prefix, hstart]
  rfl

/-- The front of a sorted list holds what does not come after its last element. -/
theorem mem_take_iff {keys : List Text} (hsorted : keys.Pairwise (· < ·)) {size : Nat}
    {last : Text} (hlast : (keys.take size).getLast? = some last) (key : Text) :
    key ∈ keys.take size ↔ key ∈ keys ∧ key ≤ last := by
  obtain ⟨front, hfront⟩ := List.getLast?_eq_some_iff.mp hlast
  have hall : keys = front ++ last :: keys.drop size := by
    have happend := List.take_append_drop size keys
    rw [hfront] at happend
    simpa using happend.symm
  rw [hall] at hsorted
  obtain ⟨-, hback, hcross⟩ := List.pairwise_append.mp hsorted
  constructor
  · intro hmem
    refine ⟨List.mem_of_mem_take hmem, ?_⟩
    rw [hfront] at hmem
    rcases List.mem_append.mp hmem with hmem | hmem
    · exact le_of_lt (hcross key hmem last List.mem_cons_self)
    · exact le_of_eq (List.mem_singleton.mp hmem)
  · rintro ⟨hmem, hle⟩
    rw [hfront]
    rw [hall] at hmem
    rcases List.mem_append.mp hmem with hmem | hmem
    · exact List.mem_append_left _ hmem
    · rcases List.mem_cons.mp hmem with rfl | hmem
      · simp
      · have hafter := (List.pairwise_cons.mp hback).1 key hmem
        exact absurd hle (not_le.mpr hafter)

theorem serves_shelf {stored : List Text} (hsorted : stored.Pairwise (· < ·))
    (hplain : ∀ key ∈ stored, ¬ ShowsEntity key) :
    Serves (fun _ key => key ∈ stored) id (shelf stored) := by
  intro number q body hbody
  obtain rfl := Option.some_inj.mp hbody
  have hkeys : (askedKeys stored q).Pairwise (· < ·) := hsorted.filter _
  have hpage : ((askedKeys stored q).take maxKeys).length ≤ maxKeys := List.length_take_le _ _
  by_cases hfits : (askedKeys stored q).length ≤ maxKeys
  · rw [if_pos hfits]
    refine .last (pageResponse _ none) ((leaves_page_flag _ none).elements (by decide))
      ((leaves_page_token _ none).elements (by decide)) hpage fun key => ?_
    have hwhole : (askedKeys stored q).take maxKeys = askedKeys stored q :=
      List.take_of_length_le hfits
    change key ∈ (askedKeys stored q).take maxKeys ↔ _
    rw [hwhole]
    exact mem_askedKeys
  · rw [if_neg hfits]
    have hne : (askedKeys stored q).take maxKeys ≠ [] := by
      rw [← List.length_pos_iff, List.length_take]
      simp only [maxKeys] at hfits ⊢
      omega
    have hlast := List.getLast?_eq_some_getLast hne
    generalize ((askedKeys stored q).take maxKeys).getLast hne = last at hlast
    have hmem := mem_take_iff hkeys hlast
    have hlastMem : last ∈ (askedKeys stored q).take maxKeys := List.mem_of_getLast? hlast
    rw [hlast]
    refine .more (pageResponse _ (some last)) ((leaves_page_flag _ (some last)).elements
      (by decide)) ((leaves_page_token _ (some last)).elements (by decide))
      (xmlEscape_escaped last)
      (hplain last (mem_askedKeys.mp (List.mem_of_mem_take hlastMem)).1) hpage fun key => ?_
    refine (hmem key).trans ?_
    rw [mem_askedKeys, and_assoc]
    rfl

/-! ## Full pages -/

theorem Answers.length_listedKeys {bucket : Text → Prop} {position : Text → Text} {q : ListQuery}
    {body : Text} (h : Answers bucket position q body) : (listedKeys body).length ≤ maxKeys := by
  have hlisted : ∀ r : ListResponse, (listedKeys r.body).length = r.keys.length := by
    intro r
    have hvalues : xmlValues r.body keyTag = r.written :=
      xmlValues_of_elements (by decide) r.elements
    rw [listedKeys, ← keyTag, hvalues, List.length_map, r.escaped.length_eq]
  cases h with
  | last r _ _ hsize => exact (hlisted r).trans_le hsize
  | more r _ _ _ _ hsize => exact (hlisted r).trans_le hsize

theorem length_readPages {bucket : Nat → Text → Prop} {position : Text → Text}
    {service : Service} (hserves : Serves bucket position service) {left number : Nat}
    {q : ListQuery} {bodies : List Text} (h : readPages service left number q = some bodies) :
    (bodies.flatMap listedKeys).length ≤ left * maxKeys := by
  induction left generalizing number q bodies with
  | zero =>
      obtain rfl : bodies = [] := (Option.some_inj.mp h).symm
      simp
  | succ left ih =>
      rw [readPages] at h
      cases hbody : service number q with
      | none => simp [hbody] at h
      | some body =>
          have hpage := (hserves number q body hbody).length_listedKeys
          have honly : ([body].flatMap listedKeys).length ≤ (left + 1) * maxKeys := by
            rw [List.flatMap_singleton, Nat.succ_mul]
            omega
          simp only [hbody] at h
          split at h
          · split at h
            · obtain rfl := Option.some_inj.mp h
              exact honly
            · obtain ⟨rest, hrest, rfl⟩ := Option.map_eq_some_iff.mp h
              have htail := ih hrest
              rw [List.flatMap_cons, List.length_append, Nat.succ_mul]
              omega
          · obtain rfl := Option.some_inj.mp h
            exact honly

/-- Where every request is answered the loop comes to an end with what it read. -/
theorem readPages_isSome {service : Service} (hanswers : ∀ number q, (service number q).isSome)
    (left number : Nat) (q : ListQuery) :
    ∃ bodies, readPages service left number q = some bodies := by
  induction left generalizing number q with
  | zero => exact ⟨[], rfl⟩
  | succ left ih =>
      obtain ⟨body, hbody⟩ := Option.isSome_iff_exists.mp (hanswers number q)
      rw [readPages, hbody]
      dsimp only
      split
      · split
        · exact ⟨_, rfl⟩
        · rename_i token _
          obtain ⟨rest, hrest⟩ := ih (number + 1) { q with token := some token }
          exact ⟨body :: rest, by rw [hrest, Option.map_some]⟩
      · exact ⟨_, rfl⟩

theorem toNat_ofNat_small {n : Nat} (h : n < 2 ^ 64) : (UInt64.ofNat n).toNat = n :=
  UInt64.toNat_ofNat_of_lt' h

/-- Batches of one change each, from the first on. -/
def batchKeys (ns : Text) (count : Nat) : List Text :=
  (List.range count).map fun i =>
    changesetKey ns (UInt64.ofNat (i + 1)) (UInt64.ofNat (i + 1))

theorem mem_batchKeys {ns : Text} {count : Nat} (hcount : count < 2 ^ 64) {key : Text}
    (h : key ∈ batchKeys ns count) : ∃ f, 0 < f ∧ key = changesetKey ns f f := by
  obtain ⟨i, hi, rfl⟩ := List.mem_map.mp h
  have hbound := List.mem_range.mp hi
  refine ⟨UInt64.ofNat (i + 1), ?_, rfl⟩
  rw [UInt64.lt_iff_toNat_lt, toNat_ofNat_small (by omega)]
  exact Nat.succ_pos i

theorem batchKeys_sorted (ns : Text) {count : Nat} (hcount : count < 2 ^ 64) :
    (batchKeys ns count).Pairwise (· < ·) := by
  rw [batchKeys, List.pairwise_map]
  refine List.pairwise_lt_range.imp_of_mem fun {i j} _ hj hij => ?_
  have hbound := List.mem_range.mp hj
  rw [changesetKey_lt_iff, UInt64.lt_iff_toNat_lt, toNat_ofNat_small (by omega),
    toNat_ofNat_small (by omega)]
  exact .inl (by omega)

theorem not_showsEntity_of_free {s : Text} (h : '&' ∉ s) : ¬ ShowsEntity s := by
  rintro ⟨p, -, hshown⟩
  exact h (hshown.subset List.mem_cons_self)

theorem changesetKey_plain {ns : Text} (hns : '&' ∉ ns) (f l : UInt64) :
    ¬ ShowsEntity (changesetKey ns f l) := by
  have hf := not_mem_padded20 (show Char.isDigit '&' = false from rfl) f
  have hl := not_mem_padded20 (show Char.isDigit '&' = false from rfl) l
  have hdir : '&' ∉ changesetsPrefix := by decide
  have hbin : '&' ∉ binSuffix := by decide
  refine not_showsEntity_of_free ?_
  simp [changesetKey, objectKey, hns, hf, hl, hdir, hbin]

theorem batchKeys_plain {ns : Text} (hns : '&' ∉ ns) {count : Nat} (hcount : count < 2 ^ 64)
    {key : Text} (h : key ∈ batchKeys ns count) : ¬ ShowsEntity key := by
  obtain ⟨f, -, rfl⟩ := mem_batchKeys hcount h
  exact changesetKey_plain hns f f

theorem serves_batchKeys {ns : Text} (hns : '&' ∉ ns) {count : Nat} (hcount : count < 2 ^ 64) :
    Serves (fun _ key => key ∈ batchKeys ns count) id (shelf (batchKeys ns count)) :=
  serves_shelf (batchKeys_sorted ns hcount) fun _ hkey => batchKeys_plain hns hcount hkey

theorem listChangesetsAfter_shelf (stored : List Text) (ns : Text) (n : UInt64) :
    ∃ keys, listChangesetsAfter (shelf stored) ns n = some keys := by
  obtain ⟨bodies, hbodies⟩ :=
    @readPages_isSome (shelf stored) (fun _ _ => rfl) maxListPages 0 (changesetsQuery ns n)
  exact ⟨_, congrArg (fun read => (Option.map _ read).map _) hbodies⟩

/-- Twenty full pages do not hold more batches than that. -/
theorem shelf_omits {ns : Text} (hns : '&' ∉ ns) {count : Nat} (hcount : count < 2 ^ 64)
    (hmany : maxListPages * maxKeys < count) :
    ∃ keys f, listChangesetsAfter (shelf (batchKeys ns count)) ns 0 = some keys ∧ 0 < f ∧
      changesetKey ns f f ∈ batchKeys ns count ∧ changesetKey ns f f ∉ keys := by
  obtain ⟨keys, hkeys⟩ := listChangesetsAfter_shelf (batchKeys ns count) ns 0
  obtain ⟨bodies, hbodies, hmem⟩ := mem_listChangesetsAfter hkeys
  by_contra hnone
  have hall : batchKeys ns count ⊆ bodies.flatMap listedKeys := by
    intro key hkey
    obtain ⟨f, hpos, rfl⟩ := mem_batchKeys hcount hkey
    by_contra hout
    exact hnone ⟨keys, f, hkeys, hpos, hkey, fun hin => hout ((hmem _).mp hin).1⟩
  have hnodup : (batchKeys ns count).Nodup :=
    (batchKeys_sorted ns hcount).imp fun hlt => ne_of_lt hlt
  have hlength := hnodup.length_le_of_subset hall
  have hpages := length_readPages (serves_batchKeys hns hcount) hbodies
  rw [batchKeys, List.length_map, List.length_range] at hlength
  omega

theorem listing_stops_early :
    Serves (fun _ key => key ∈ batchKeys "ha/prod".toList 20001) id
        (shelf (batchKeys "ha/prod".toList 20001)) ∧
      ∃ keys f, listChangesetsAfter (shelf (batchKeys "ha/prod".toList 20001))
          "ha/prod".toList 0 = some keys ∧ 0 < f ∧
        changesetKey "ha/prod".toList f f ∈ batchKeys "ha/prod".toList 20001 ∧
        changesetKey "ha/prod".toList f f ∉ keys :=
  ⟨serves_batchKeys (by decide) (by decide), shelf_omits (by decide) (by decide) (by decide)⟩

/-! ## The whole format -/

theorem changeset_format :
    (∀ (parse : List UInt8 → Option Json) (epoch : UInt64) (schemaVersion : Int64)
        (f l : UInt64) (bytes : List UInt8), f ≤ l →
      parse (ChangesetHeader.toVec ⟨changesetVersion, epoch, schemaVersion, f, l⟩) =
        some (.object (ChangesetHeader.fields ⟨changesetVersion, epoch, schemaVersion, f, l⟩)) →
      ∃ body, encodeChangeset epoch schemaVersion f l bytes = .ok body ∧
        decodeChangeset parse body = some (.ok ⟨epoch, schemaVersion, f, l, bytes⟩)) ∧
    (∀ (parse : List UInt8 → Option Json) (body : List UInt8),
      ∃ result, decodeChangeset parse body = some result) ∧
    (∀ (ns : Text) (f l : UInt64), changesetRange (changesetKey ns f l) = some (f, l)) ∧
    (∀ (ns : Text) (f l f' l' : UInt64),
      changesetKey ns f l < changesetKey ns f' l' ↔ f < f' ∨ f = f' ∧ l < l') ∧
    (∀ (bucket : Nat → Text → Prop) (position : Text → Text) (service : Service) (ns : Text)
        (n : UInt64) (keys : List Text), Serves bucket position service →
      (∀ number key, bucket number key → ¬ ShowsEntity key) →
      listChangesetsAfter service ns n = some keys →
      ∀ f l, n < f → (∀ number, bucket number (changesetKey ns f l)) →
        changesetKey ns f l ∈ keys ∨
          (PagesExhausted service (changesetsQuery ns n) ∧
            ∀ key ∈ keys, key < changesetKey ns f l)) := by
  refine ⟨?_, decodeChangeset_total, changesetRange_key, changesetKey_lt_iff, ?_⟩
  · intro parse epoch schemaVersion f l bytes hrange hparse
    exact ⟨_, encodeChangeset_eq epoch schemaVersion f l bytes,
      decodeChangeset_encode hparse rfl hrange bytes⟩
  · intro bucket position service ns n keys hserves hplain hkeys f l hnew hstored
    exact listChangesetsAfter_omits hserves hplain hkeys hnew hstored

def sampleHeader : ChangesetHeader := ⟨changesetVersion, 7, 94, 11, 12⟩

/-- A parser that knows the text of one header. -/
def sampleParse (text : List UInt8) : Option Json :=
  if text = sampleHeader.toVec then some (.object sampleHeader.fields) else none

theorem changeset_format_sample :
    (∃ body, encodeChangeset 7 94 11 12 [99] = .ok body ∧
      decodeChangeset sampleParse body = some (.ok ⟨7, 94, 11, 12, [99]⟩)) ∧
    ∃ keys, listChangesetsAfter (shelf (batchKeys "ha/prod".toList 1)) "ha/prod".toList 0 =
        some keys ∧
      (changesetKey "ha/prod".toList 1 1 ∈ keys ∨
        (PagesExhausted (shelf (batchKeys "ha/prod".toList 1))
            (changesetsQuery "ha/prod".toList 0) ∧
          ∀ key ∈ keys, key < changesetKey "ha/prod".toList 1 1)) := by
  have hns : '&' ∉ "ha/prod".toList := by decide
  obtain ⟨hround, -, -, -, hlist⟩ := changeset_format
  refine ⟨hround sampleParse 7 94 11 12 [99] (by decide) (if_pos rfl), ?_⟩
  obtain ⟨keys, hkeys⟩ :=
    listChangesetsAfter_shelf (batchKeys "ha/prod".toList 1) "ha/prod".toList 0
  exact ⟨keys, hkeys, hlist _ id _ _ 0 keys (serves_batchKeys hns (by decide))
    (fun _ key hkey => batchKeys_plain hns (by decide) hkey) hkeys 1 1 (by decide)
    fun _ => List.mem_singleton.mpr rfl⟩

end AgentGrid.Ha
