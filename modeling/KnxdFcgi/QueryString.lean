import KnxdFcgi.Text

/-! `QueryString`: percent decoding, and the parameters of a request as a map from keys to their values
with the limits on keys, values and pairs. The loop over the text becomes a recursion on the number of
pairs that may still be looked at; a pair ends at the next `&` and is split at its first `=`. -/

namespace KnxdFcgi

def kMaxQueryParams : Nat := 100

def kMaxValuesPerKey : Nat := 250

def kMaxTotalPairs : Nat := 256

/-- A character that is not the start of an escape. -/
def urlDecodeChar (c : UInt8) : UInt8 := if c = ascii '+' then ascii ' ' else c

/-- A `%` that is not followed by two digits stands for itself. -/
def urlDecode : Text → Text
  | c :: hi :: lo :: rest =>
      if c = ascii '%' then
        match hexValue hi, hexValue lo with
        | some h, some l => (h <<< 4 ||| l) :: urlDecode rest
        | _, _ => c :: urlDecode (hi :: lo :: rest)
      else urlDecodeChar c :: urlDecode (hi :: lo :: rest)
  | c :: rest => urlDecodeChar c :: urlDecode rest
  | [] => []

/-- A byte that is no `%` is decoded by itself, whatever follows it. -/
theorem urlDecode_cons_of_ne {c : UInt8} (hc : c ≠ ascii '%') (rest : Text) :
    urlDecode (c :: rest) = urlDecodeChar c :: urlDecode rest := by
  match rest with
  | [] | [_] => rfl
  | hi :: lo :: rest => rw [urlDecode, if_neg hc]

theorem urlDecode_plain {s : Text} (h : ∀ c ∈ s, c ≠ ascii '%' ∧ c ≠ ascii '+') : urlDecode s = s := by
  induction s with
  | nil => rfl
  | cons c rest ih =>
      obtain ⟨hpercent, hplus⟩ := h c List.mem_cons_self
      rw [urlDecode_cons_of_ne hpercent, urlDecodeChar, if_neg hplus,
        ih fun d hd => h d (List.mem_cons_of_mem c hd)]

/-- The map of the parameters, as the list of its keys with their values. -/
structure QueryString where
  params : List (Text × List Text) := []
  keys_nodup : (params.map Prod.fst).Nodup := by decide
  size_le : params.length ≤ kMaxQueryParams := by decide
  values_le : ∀ p ∈ params, p.2.length ≤ kMaxValuesPerKey := by decide
  values_ne : ∀ p ∈ params, p.2 ≠ [] := by decide

namespace QueryString

/-- The values of a key, where the map has it. -/
def find (q : QueryString) (key : Text) : Option (List Text) :=
  (q.params.find? (·.1 = key)).map Prod.snd

/-- `it->second.push_back(value)` for the key, unless it is full. -/
def pushBack (key value : Text) (p : Text × List Text) : Text × List Text :=
  if p.1 = key ∧ p.2.length < kMaxValuesPerKey then (p.1, p.2 ++ [value]) else p

theorem pushBack_fst (key value : Text) (p : Text × List Text) : (pushBack key value p).1 = p.1 := by
  unfold pushBack
  split <;> rfl

theorem map_pushBack_fst (key value : Text) (params : List (Text × List Text)) :
    (params.map (pushBack key value)).map Prod.fst = params.map Prod.fst := by
  rw [List.map_map]
  exact List.map_congr_left fun p _ => pushBack_fst key value p

theorem pushBack_values_le {key value : Text} {p : Text × List Text} (h : p.2.length ≤ kMaxValuesPerKey) :
    (pushBack key value p).2.length ≤ kMaxValuesPerKey := by
  unfold pushBack
  split
  · rename_i hfree
    simp only [List.length_append, List.length_singleton]
    omega
  · exact h

theorem pushBack_values_ne {key value : Text} {p : Text × List Text} (h : p.2 ≠ []) :
    (pushBack key value p).2 ≠ [] := by
  unfold pushBack
  split
  · simp
  · exact h

/-- A value for a key: it is dropped where the key, or the map, is full. -/
def insert (q : QueryString) (key value : Text) : QueryString :=
  if hkey : key ∈ q.params.map Prod.fst then
    { params := q.params.map (pushBack key value)
      keys_nodup := by
        rw [map_pushBack_fst]
        exact q.keys_nodup
      size_le := by
        rw [List.length_map]
        exact q.size_le
      values_le := by
        intro p hp
        obtain ⟨p, hmem, rfl⟩ := List.mem_map.mp hp
        exact pushBack_values_le (q.values_le p hmem)
      values_ne := by
        intro p hp
        obtain ⟨p, hmem, rfl⟩ := List.mem_map.mp hp
        exact pushBack_values_ne (q.values_ne p hmem) }
  else if hfull : kMaxQueryParams ≤ q.params.length then q
  else
    { params := q.params ++ [(key, [value])]
      keys_nodup := by
        rw [List.map_append, List.nodup_append]
        refine ⟨q.keys_nodup, List.nodup_singleton _, fun k hk k' hk' heq => hkey ?_⟩
        have hsame : k' = key := List.mem_singleton.mp hk'
        rwa [← hsame, ← heq]
      size_le := by
        rw [List.length_append, List.length_singleton]
        omega
      values_le := by
        intro p hp
        rcases List.mem_append.mp hp with hp | hp
        · exact q.values_le p hp
        · rw [List.mem_singleton.mp hp]
          exact show 1 ≤ kMaxValuesPerKey by decide
      values_ne := by
        intro p hp
        rcases List.mem_append.mp hp with hp | hp
        · exact q.values_ne p hp
        · rw [List.mem_singleton.mp hp]
          exact List.cons_ne_nil _ _ }

/-- One pair of the text; without a `=` it is skipped. -/
def insertPair (q : QueryString) (pair : Text) : QueryString :=
  if ascii '=' ∈ pair then
    q.insert (urlDecode (pair.takeWhile (· ≠ ascii '=')))
      (urlDecode ((pair.dropWhile (· ≠ ascii '=')).drop 1))
  else q

/-- The loop of the constructor, for the pairs that may still be looked at. -/
def parseFrom : Nat → Text → QueryString → QueryString
  | 0, _, q => q
  | _ + 1, [], q => q
  | pairs + 1, c :: raw, q =>
      parseFrom pairs (((c :: raw).dropWhile (· ≠ ascii '&')).drop 1)
        (q.insertPair ((c :: raw).takeWhile (· ≠ ascii '&')))

def parse (raw : Text) : QueryString := parseFrom kMaxTotalPairs raw {}

def get (q : QueryString) (key : Text) : Option Text :=
  match q.find key with
  | some (value :: _) => some value
  | _ => none

def getAll (q : QueryString) (key : Text) : List Text := (q.find key).getD []

def has (q : QueryString) (key : Text) : Bool := (q.find key).isSome

/-- The check of `s` that the handlers make: a session that is named has to be valid. -/
def sessionInvalid (isValid : Text → Bool) (q : QueryString) : Bool :=
  match q.get (text "s") with
  | some session => !isValid session
  | none => false

theorem insert_params (q : QueryString) (key value : Text) :
    (q.insert key value).params =
      if key ∈ q.params.map Prod.fst then q.params.map (pushBack key value)
      else if kMaxQueryParams ≤ q.params.length then q.params
      else q.params ++ [(key, [value])] := by
  unfold insert
  split
  · rfl
  · split <;> rfl

theorem find?_eq_none_iff (params : List (Text × List Text)) (key : Text) :
    params.find? (·.1 = key) = none ↔ key ∉ params.map Prod.fst := by
  simp only [List.find?_eq_none, decide_eq_true_eq, List.mem_map, not_exists, not_and]

/-- Appending a value to a key does not move the entries. -/
theorem find?_pushBack (key value k : Text) (params : List (Text × List Text)) :
    (params.map (pushBack key value)).find? (·.1 = k) =
      (params.find? (·.1 = k)).map (pushBack key value) := by
  rw [List.find?_map]
  congr 2
  funext p
  simp only [Function.comp_apply, pushBack_fst]

/-- The values of a key after an insertion for it. -/
theorem find_insert_self (q : QueryString) (key value : Text) :
    (q.insert key value).find key = match q.find key with
      | some values => some (if values.length < kMaxValuesPerKey then values ++ [value] else values)
      | none => if q.params.length < kMaxQueryParams then some [value] else none := by
  simp only [find, insert_params]
  cases hfind : q.params.find? (·.1 = key) with
  | none =>
      rw [if_neg ((find?_eq_none_iff _ _).mp hfind)]
      by_cases hfull : kMaxQueryParams ≤ q.params.length
      · simp [hfull, hfind]
      · simp [hfull, not_le.mp hfull, hfind, List.find?_append]
  | some p =>
      have hp : p.1 = key := by simpa using List.find?_some hfind
      have hkey : key ∈ q.params.map Prod.fst :=
        List.mem_map.mpr ⟨p, List.mem_of_find?_eq_some hfind, hp⟩
      simp only [if_pos hkey, find?_pushBack, hfind, Option.map_some, pushBack, hp, true_and]
      split <;> rfl

theorem find_insert_of_ne (q : QueryString) {key k : Text} (value : Text) (hne : k ≠ key) :
    (q.insert key value).find k = q.find k := by
  simp only [find, insert_params]
  split
  · rw [find?_pushBack]
    cases hfind : q.params.find? (·.1 = k) with
    | none => rfl
    | some p =>
        have hp : p.1 = k := by simpa using List.find?_some hfind
        have hother : ¬p.1 = key := hp ▸ hne
        simp only [Option.map_some, pushBack, hother, false_and, if_false]
  · split
    · rfl
    · simp [List.find?_append, hne.symm]

/-- A key is in the map exactly if it is found there. -/
theorem find_isSome_iff (q : QueryString) (key : Text) : (q.find key).isSome ↔ key ∈ q.params.map Prod.fst := by
  rw [find, Option.isSome_map, Option.isSome_iff_ne_none, ne_eq, find?_eq_none_iff, not_not]

def insertAll (q : QueryString) (pairs : List (Text × Text)) : QueryString :=
  pairs.foldl (fun q p => q.insert p.1 p.2) q

/-- The values that a list of pairs has for a key. -/
def valuesOf (pairs : List (Text × Text)) (key : Text) : List Text :=
  (pairs.filter (·.1 = key)).map Prod.snd

theorem valuesOf_snoc_self (pairs : List (Text × Text)) (key value : Text) :
    valuesOf (pairs ++ [(key, value)]) key = valuesOf pairs key ++ [value] := by
  simp [valuesOf]

theorem valuesOf_snoc_of_ne (pairs : List (Text × Text)) {key k : Text} (value : Text) (hne : k ≠ key) :
    valuesOf (pairs ++ [(key, value)]) k = valuesOf pairs k := by
  simp [valuesOf, hne.symm]

theorem valuesOf_ne_nil {pairs : List (Text × Text)} {key : Text} :
    valuesOf pairs key ≠ [] ↔ key ∈ pairs.map Prod.fst := by
  simp [valuesOf]

/-- The pairs stay within the limits on keys and on the values of a key. -/
structure Fits (pairs : List (Text × Text)) : Prop where
  keys : (pairs.map Prod.fst).toFinset.card ≤ kMaxQueryParams
  values : ∀ key, (valuesOf pairs key).length ≤ kMaxValuesPerKey

/-- A list short enough for the keys is short enough for the values. -/
theorem fits_of_length {pairs : List (Text × Text)} (h : pairs.length ≤ kMaxQueryParams) : Fits pairs where
  keys := by
    refine (List.toFinset_card_le _).trans ?_
    rwa [List.length_map]
  values key := by
    rw [valuesOf, List.length_map]
    exact (List.length_filter_le _ _).trans (h.trans (by decide))

theorem Fits.of_snoc {pairs : List (Text × Text)} {p : Text × Text} (h : Fits (pairs ++ [p])) : Fits pairs where
  keys := by
    refine (Finset.card_le_card fun key hkey => ?_).trans h.keys
    rw [List.mem_toFinset] at hkey ⊢
    rw [List.map_append]
    exact List.mem_append_left _ hkey
  values key := by
    refine le_trans ?_ (h.values key)
    simp [valuesOf]

/-- A key that the pairs have not had yet finds room. -/
theorem Fits.room {pairs : List (Text × Text)} {key value : Text} (h : Fits (pairs ++ [(key, value)]))
    (hkey : key ∉ pairs.map Prod.fst) {q : QueryString}
    (hq : ∀ k ∈ q.params.map Prod.fst, k ∈ pairs.map Prod.fst) : q.params.length < kMaxQueryParams := by
  have hsub : (q.params.map Prod.fst).toFinset ⊆ (pairs.map Prod.fst).toFinset := by
    intro k hk
    rw [List.mem_toFinset] at hk ⊢
    exact hq k hk
  have hnew : ((pairs ++ [(key, value)]).map Prod.fst).toFinset =
      Insert.insert key (pairs.map Prod.fst).toFinset := by
    ext k
    simp
  have hcard : (Insert.insert key (pairs.map Prod.fst).toFinset).card = (pairs.map Prod.fst).toFinset.card + 1 :=
    Finset.card_insert_of_notMem fun hmem => hkey (List.mem_toFinset.mp hmem)
  have hkeys := h.keys
  rw [hnew, hcard] at hkeys
  have hle := Finset.card_le_card hsub
  rw [List.toFinset_card_of_nodup q.keys_nodup, List.length_map] at hle
  omega

/-- **The map holds the values of every key in their order**, for pairs within the limits. -/
theorem find_insertAll {pairs : List (Text × Text)} (h : Fits pairs) (k : Text) :
    (insertAll {} pairs).find k = if k ∈ pairs.map Prod.fst then some (valuesOf pairs k) else none := by
  induction pairs using List.reverseRecOn generalizing k with
  | nil => rfl
  | append_singleton pairs p ih =>
      obtain ⟨key, value⟩ := p
      have ih := ih h.of_snoc
      have hall : insertAll {} (pairs ++ [(key, value)]) = (insertAll {} pairs).insert key value :=
        List.foldl_append
      have hmem : k ∈ (pairs ++ [(key, value)]).map Prod.fst ↔ k ∈ pairs.map Prod.fst ∨ k = key := by
        simp
      rw [hall]
      by_cases hk : k = key
      · subst hk
        rw [if_pos (hmem.mpr (Or.inr rfl)), find_insert_self, ih, valuesOf_snoc_self]
        by_cases hold : k ∈ pairs.map Prod.fst
        · have hroom := h.values k
          rw [valuesOf_snoc_self, List.length_append, List.length_singleton] at hroom
          simp only [if_pos hold]
          rw [if_pos (by omega)]
        · have hroom := h.room hold (q := insertAll {} pairs) fun k' hk' => by
            by_contra hnot
            have hfound := (find_isSome_iff _ k').mpr hk'
            rw [ih, if_neg hnot] at hfound
            cases hfound
          have hnone : valuesOf pairs k = [] := by
            by_contra hsome
            exact hold (valuesOf_ne_nil.mp hsome)
          simp only [if_neg hold]
          rw [if_pos hroom, hnone]
          rfl
      · rw [find_insert_of_ne _ _ hk, ih, valuesOf_snoc_of_ne _ _ hk]
        simp only [hmem, hk, or_false]

/-! ### What a text of pairs is parsed into -/

/-- `key=value`, as it stands in a query. -/
def pair (key value : Text) : Text := key ++ ascii '=' :: value

theorem ne_of_not_mem {c : UInt8} {s : Text} (h : c ∉ s) : ∀ x ∈ s, decide (x ≠ c) = true := by
  intro x hx
  exact decide_eq_true fun heq => h (heq ▸ hx)

theorem takeWhile_ne_append {c : UInt8} {before : Text} (hbefore : c ∉ before) (after : Text) :
    (before ++ c :: after).takeWhile (· ≠ c) = before := by
  rw [List.takeWhile_append_of_pos (ne_of_not_mem hbefore)]
  simp

theorem dropWhile_ne_append {c : UInt8} {before : Text} (hbefore : c ∉ before) (after : Text) :
    (before ++ c :: after).dropWhile (· ≠ c) = c :: after := by
  rw [List.dropWhile_append_of_pos (ne_of_not_mem hbefore)]
  simp

/-- A pair whose key ends at its first `=`, and which ends at the next `&`. -/
structure Separable (p : Text × Text) : Prop where
  key_no_eq : ascii '=' ∉ p.1
  key_no_amp : ascii '&' ∉ p.1
  value_no_amp : ascii '&' ∉ p.2

theorem insertPair_pair (q : QueryString) {key : Text} (value : Text) (hkey : ascii '=' ∉ key) :
    q.insertPair (pair key value) = q.insert (urlDecode key) (urlDecode value) := by
  rw [insertPair, pair, if_pos (by simp), takeWhile_ne_append hkey, dropWhile_ne_append hkey]
  rfl

theorem parseFrom_cons {pairs : Nat} {raw : Text} (hamp : ascii '&' ∉ raw) (rest : Text) (q : QueryString) :
    parseFrom (pairs + 1) (raw ++ ascii '&' :: rest) q = parseFrom pairs rest (q.insertPair raw) := by
  obtain ⟨c, text, htext⟩ : ∃ c text, raw ++ ascii '&' :: rest = c :: text := by
    cases raw with
    | nil => exact ⟨_, _, rfl⟩
    | cons c raw => exact ⟨_, _, rfl⟩
  rw [htext, parseFrom, ← htext, takeWhile_ne_append hamp, dropWhile_ne_append hamp]
  rfl

theorem parseFrom_last {pairs : Nat} {raw : Text} (hraw : raw ≠ []) (hamp : ascii '&' ∉ raw)
    (q : QueryString) : parseFrom (pairs + 1) raw q = q.insertPair raw := by
  cases raw with
  | nil => exact absurd rfl hraw
  | cons c raw =>
      rw [parseFrom, List.takeWhile_eq_self_iff.mpr (ne_of_not_mem hamp),
        List.dropWhile_eq_nil_iff.mpr (ne_of_not_mem hamp)]
      cases pairs <;> rfl

theorem Separable.amp_not_mem {p : Text × Text} (h : Separable p) : ascii '&' ∉ pair p.1 p.2 := by
  simp only [pair, List.mem_append, List.mem_cons, not_or]
  exact ⟨h.key_no_amp, by decide, h.value_no_amp⟩

theorem pair_ne_nil (key value : Text) : pair key value ≠ [] := by
  simp [pair]

/-- The pairs as they stand in a query, with `&` between them. -/
def joined (pairs : List (Text × Text)) : Text :=
  [ascii '&'].intercalate (pairs.map fun p => pair p.1 p.2)

theorem parseFrom_joined {pairs : List (Text × Text)} (hpairs : ∀ p ∈ pairs, Separable p) {limit : Nat}
    (hlimit : pairs.length ≤ limit) (q : QueryString) :
    parseFrom limit (joined pairs) q = q.insertAll (pairs.map fun p => (urlDecode p.1, urlDecode p.2)) := by
  induction pairs generalizing limit q with
  | nil => cases limit <;> rfl
  | cons p pairs ih =>
      have hp := hpairs p List.mem_cons_self
      have hrest := fun p' hp' => hpairs p' (List.mem_cons_of_mem p hp')
      obtain ⟨limit, rfl⟩ : ∃ n, limit = n + 1 := ⟨limit - 1, by simp at hlimit; omega⟩
      have hpair := insertPair_pair q p.2 hp.key_no_eq
      cases pairs with
      | nil =>
          have hone : joined [p] = pair p.1 p.2 := by simp [joined, List.intercalate]
          rw [hone, parseFrom_last (pair_ne_nil _ _) hp.amp_not_mem, hpair]
          rfl
      | cons p' pairs =>
          have hmore : joined (p :: p' :: pairs) = pair p.1 p.2 ++ ascii '&' :: joined (p' :: pairs) := by
            simp [joined, List.intercalate]
          rw [hmore, parseFrom_cons hp.amp_not_mem, hpair,
            ih hrest (by simpa using hlimit)]
          rfl

/-- The query of a list of pairs is the list of its insertions, decoded. -/
theorem parse_joined {pairs : List (Text × Text)} (hpairs : ∀ p ∈ pairs, Separable p)
    (hlimit : pairs.length ≤ kMaxTotalPairs) :
    parse (joined pairs) = insertAll {} (pairs.map fun p => (urlDecode p.1, urlDecode p.2)) :=
  parseFrom_joined hpairs hlimit {}

/-- A key that stands in a query as it is. -/
structure Plain (key : Text) : Prop where
  no_eq : ascii '=' ∉ key
  no_amp : ascii '&' ∉ key
  decoded : urlDecode key = key

instance (key : Text) : Decidable (Plain key) :=
  decidable_of_iff (ascii '=' ∉ key ∧ ascii '&' ∉ key ∧ urlDecode key = key)
    ⟨fun h => ⟨h.1, h.2.1, h.2.2⟩, fun h => ⟨h.1, h.2, h.3⟩⟩

section TwoPairs

variable {key key' value value' : Text} (hkey : Plain key) (hkey' : Plain key') (hne : key ≠ key')
  (hvalue : ascii '&' ∉ value) (hvalue' : ascii '&' ∉ value')

include hkey hkey' hvalue hvalue'

theorem parse_two : parse (pair key value ++ ascii '&' :: pair key' value') =
    insertAll {} [(key, urlDecode value), (key', urlDecode value')] := by
  have htext : pair key value ++ ascii '&' :: pair key' value' = joined [(key, value), (key', value')] := by
    simp [joined, List.intercalate]
  have hpairs : ∀ p ∈ [(key, value), (key', value')], Separable p := by
    intro p hp
    rcases List.mem_pair.mp hp with rfl | rfl
    · exact ⟨hkey.no_eq, hkey.no_amp, hvalue⟩
    · exact ⟨hkey'.no_eq, hkey'.no_amp, hvalue'⟩
  rw [htext, parse_joined hpairs (show 2 ≤ kMaxTotalPairs by decide)]
  simp only [List.map_cons, List.map_nil, hkey.decoded, hkey'.decoded]

include hne

/-- What is found in a query of two pairs with different keys. -/
theorem find_parse_two (k : Text) : (parse (pair key value ++ ascii '&' :: pair key' value')).find k =
    if k = key then some [urlDecode value] else if k = key' then some [urlDecode value'] else none := by
  have hfits : Fits [(key, urlDecode value), (key', urlDecode value')] :=
    fits_of_length (show 2 ≤ kMaxQueryParams by decide)
  rw [parse_two hkey hkey' hvalue hvalue', find_insertAll hfits]
  by_cases hk : k = key
  · subst hk
    simp [valuesOf, hne.symm]
  · by_cases hk' : k = key'
    · subst hk'
      simp [valuesOf, hne, hk]
    · simp [hk, hk']

theorem getAll_parse_two :
    (parse (pair key value ++ ascii '&' :: pair key' value')).getAll key = [urlDecode value] := by
  rw [getAll, find_parse_two hkey hkey' hne hvalue hvalue', if_pos rfl, Option.getD_some]

theorem get_parse_two :
    (parse (pair key value ++ ascii '&' :: pair key' value')).get key' = some (urlDecode value') := by
  rw [get, find_parse_two hkey hkey' hne hvalue hvalue', if_neg hne.symm, if_pos rfl]

theorem get_parse_two_of_ne {k : Text} (hk : k ≠ key) (hk' : k ≠ key') :
    (parse (pair key value ++ ascii '&' :: pair key' value')).get k = none := by
  rw [get, find_parse_two hkey hkey' hne hvalue hvalue', if_neg hk, if_neg hk']

/-- Without an `s`, no session is refused. -/
theorem sessionInvalid_parse_two (isValid : Text → Bool) (hs : text "s" ≠ key) (hs' : text "s" ≠ key') :
    (parse (pair key value ++ ascii '&' :: pair key' value')).sessionInvalid isValid = false := by
  rw [sessionInvalid, get_parse_two_of_ne hkey hkey' hne hvalue hvalue' hs hs']

end TwoPairs

/-- A value never takes the place of an earlier one. -/
theorem getAll_insert (q : QueryString) (key value k : Text) : q.getAll k <+: (q.insert key value).getAll k := by
  unfold getAll
  by_cases hk : k = key
  · subst hk
    rw [find_insert_self]
    cases hfind : q.find k with
    | none => exact List.nil_prefix
    | some values =>
        simp only [Option.getD_some]
        split
        · exact List.prefix_append values [value]
        · exact List.prefix_rfl
  · rw [find_insert_of_ne _ _ hk]

theorem getAll_insertPair (q : QueryString) (raw k : Text) : q.getAll k <+: (q.insertPair raw).getAll k := by
  unfold insertPair
  split
  · exact getAll_insert q _ _ k
  · exact List.prefix_rfl

theorem getAll_parseFrom (pairs : Nat) (raw : Text) (q : QueryString) (k : Text) :
    q.getAll k <+: (parseFrom pairs raw q).getAll k := by
  induction pairs generalizing raw q with
  | zero => exact List.prefix_rfl
  | succ pairs ih =>
      cases raw with
      | nil => exact List.prefix_rfl
      | cons c raw => exact (getAll_insertPair q _ k).trans (ih _ _)

/-- The two loops go through the pairs of the shorter text together; what the longer one then still
has in front of it is appended. A pair without a `=` counts for both of them. -/
theorem getAll_parseFrom_append (pairs : Nat) (r x : Text) (q : QueryString) (k : Text) :
    (parseFrom pairs r q).getAll k <+: (parseFrom pairs (r ++ ascii '&' :: x) q).getAll k := by
  induction pairs generalizing r q with
  | zero => exact List.prefix_rfl
  | succ pairs ih =>
      by_cases hamp : ascii '&' ∈ r
      · obtain ⟨before, after, rfl, hbefore⟩ := List.eq_append_cons_of_mem hamp
        rw [List.append_assoc, List.cons_append, parseFrom_cons hbefore, parseFrom_cons hbefore]
        exact ih after _
      · rw [parseFrom_cons hamp]
        by_cases hr : r = []
        · subst hr
          exact getAll_parseFrom pairs x q k
        · rw [parseFrom_last hr hamp]
          exact getAll_parseFrom pairs x _ k

theorem get_eq_head? (q : QueryString) (k : Text) : q.get k = (q.getAll k).head? := by
  unfold get getAll
  cases q.find k with
  | none => rfl
  | some values => cases values <;> rfl

theorem getAll_length_le (q : QueryString) (k : Text) : (q.getAll k).length ≤ kMaxValuesPerKey := by
  unfold getAll find
  cases hfind : q.params.find? (·.1 = k) with
  | none => exact Nat.zero_le _
  | some p => exact q.values_le p (List.mem_of_find?_eq_some hfind)

/-- The values of all the keys. -/
def allValues (q : QueryString) : List Text := q.params.flatMap Prod.snd

theorem pushBack_of_ne {key : Text} {p : Text × List Text} (hne : p.1 ≠ key) (value : Text) :
    pushBack key value p = p := by
  rw [pushBack, if_neg fun h => hne h.1]

theorem pushBack_length_le (key value : Text) (p : Text × List Text) :
    (pushBack key value p).2.length ≤ p.2.length + 1 := by
  unfold pushBack
  split
  · exact (List.length_append).le
  · exact Nat.le_succ _

/-- No two entries are of one key, so that a value is appended at most once. -/
theorem length_flatMap_pushBack {params : List (Text × List Text)} (h : (params.map Prod.fst).Nodup)
    (key value : Text) :
    ((params.map (pushBack key value)).flatMap Prod.snd).length ≤ (params.flatMap Prod.snd).length + 1 := by
  induction params with
  | nil => exact Nat.zero_le _
  | cons p params ih =>
      obtain ⟨hnot, hrest⟩ := List.nodup_cons.mp h
      rw [List.map_cons, List.flatMap_cons, List.flatMap_cons, List.length_append, List.length_append]
      by_cases hp : p.1 = key
      · have hsame : params.map (pushBack key value) = params := by
          refine (List.map_congr_left fun p' hp' => pushBack_of_ne ?_ value).trans (List.map_id _)
          rintro rfl
          exact hnot (hp ▸ List.mem_map_of_mem hp')
        have hone := pushBack_length_le key value p
        rw [hsame]
        omega
      · have hih := ih hrest
        rw [pushBack_of_ne hp]
        omega

theorem allValues_insert (q : QueryString) (key value : Text) :
    (q.insert key value).allValues.length ≤ q.allValues.length + 1 := by
  unfold allValues
  rw [insert_params]
  split
  · exact length_flatMap_pushBack q.keys_nodup key value
  · split
    · exact Nat.le_succ _
    · simp

theorem allValues_parseFrom (pairs : Nat) (raw : Text) (q : QueryString) :
    (parseFrom pairs raw q).allValues.length ≤ q.allValues.length + pairs := by
  induction pairs generalizing raw q with
  | zero => exact le_rfl
  | succ pairs ih =>
      cases raw with
      | nil => exact Nat.le_add_right _ _
      | cons c raw =>
          have hpair : ∀ text, (q.insertPair text).allValues.length ≤ q.allValues.length + 1 := by
            intro text
            unfold insertPair
            split
            · exact allValues_insert q _ _
            · exact Nat.le_succ _
          have hrest := ih (((c :: raw).dropWhile (· ≠ ascii '&')).drop 1)
            (q.insertPair ((c :: raw).takeWhile (· ≠ ascii '&')))
          have hone := hpair ((c :: raw).takeWhile (· ≠ ascii '&'))
          rw [parseFrom]
          omega

/-- **Parameters that are appended change no earlier one, and the limits hold for every text.** -/
theorem parse_append_and_limits :
    (∀ r x k : Text, (parse r).getAll k <+: (parse (r ++ ascii '&' :: x)).getAll k) ∧
      (∀ (r x k v : Text), (parse r).get k = some v → (parse (r ++ ascii '&' :: x)).get k = some v) ∧
      ∀ raw : Text, (parse raw).params.length ≤ kMaxQueryParams ∧
        (∀ k, ((parse raw).getAll k).length ≤ kMaxValuesPerKey) ∧
        (parse raw).allValues.length ≤ kMaxTotalPairs := by
  have hkept := fun r x k : Text => getAll_parseFrom_append kMaxTotalPairs r x {} k
  refine ⟨hkept, fun r x k v hv => ?_, fun raw => ⟨(parse raw).size_le, getAll_length_le _, ?_⟩⟩
  · obtain ⟨more, hmore⟩ := hkept r x k
    rw [get_eq_head?, parse] at hv ⊢
    rw [← hmore, List.head?_append, hv, Option.some_or]
  · have htotal := allValues_parseFrom kMaxTotalPairs raw {}
    exact htotal.trans (Nat.zero_add _).le

end QueryString
end KnxdFcgi
