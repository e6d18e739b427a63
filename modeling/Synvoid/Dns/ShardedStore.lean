import Synvoid.Dns.Zone
import Synvoid.Framework.Transition

/-! # The sharded zone store

    Model of `ShardedZoneStore` (`synvoid-dns/src/server/sharded_store.rs`).
    Zones are stored under their origins as they are written, in the shard that
    a hash of the origin selects. Lookups go through an index of the origins in
    lower case and without trailing dots, which each operation has to maintain.
    Two of them do not always: a zone that is created on the way to an update is
    not indexed, and removing one of two origins with the same normal form drops
    the index entry of the other (`finds_every_iff`).

    `Zone.lean` has the part of the store that queries use, with the shards
    merged.
-/

namespace Synvoid.Dns

open Synvoid.Framework

structure ShardedZoneStore where
  shards : Fin 64 → Table Str Zone
  suffixIndex : Table Str Str

/-- `shard_index`. -/
def shardIndex (origin : Str) : Fin 64 :=
  let hash := (utf8 origin).foldl (fun (hash : UInt64) byte => hash * 33 + byte.toUInt64) 5381
  ⟨hash.toNat % 64, Nat.mod_lt _ (by decide)⟩

/-- `trim_end_matches('.').to_lowercase()`. -/
def originLower (lib : Externals) (origin : Str) : Str :=
  lib.toLowercase (trimEndMatches '.' origin)

namespace ShardedZoneStore

def new : ShardedZoneStore where
  shards := fun _ => ∅
  suffixIndex := ∅

variable (lib : Externals) (store : ShardedZoneStore)

def setShard (i : Fin 64) (shard : Table Str Zone) : ShardedZoneStore :=
  { store with shards := Function.update store.shards i shard }

def get (origin : Str) : Option Zone := (store.shards (shardIndex origin)).lookup origin

/-- The origins of all shards, one shard after the other. -/
def keys : List Str := (List.finRange 64).flatMap fun i => (store.shards i).keys

/-- `rebuild_suffix_index`: of two origins with one normal form the later one stays. -/
def rebuildIndex : ShardedZoneStore :=
  { store with
    suffixIndex := Table.collect (store.keys.map fun origin => (originLower lib origin, origin)) }

def findByExact (origin : Str) : Option Zone :=
  (store.suffixIndex.lookup (originLower lib origin)).bind store.get

def findBySuffixWithFilter (qname : Str) (filter : Zone → Bool) : Option Zone :=
  (ZoneStore.suffixes lib qname).findSome? fun suffix => do
    let originKey ← store.suffixIndex.lookup suffix
    let zone ← store.get originKey
    if filter zone then some zone else none

def findBySuffix (qname : Str) : Option Zone := store.findBySuffixWithFilter lib qname fun _ => true

def insert (origin : Str) (zone : Zone) : ShardedZoneStore :=
  { store.setShard (shardIndex origin) ((store.shards (shardIndex origin)).insert origin zone) with
    suffixIndex := store.suffixIndex.insert (originLower lib origin) origin }

def remove (origin : Str) : ShardedZoneStore :=
  let shard := store.shards (shardIndex origin)
  let removed := store.setShard (shardIndex origin) (shard.erase origin)
  if (store.get origin).isSome then
    { removed with suffixIndex := store.suffixIndex.erase (originLower lib origin) }
  else removed

def updateZone (origin : Str) (f : Zone → Zone) : ShardedZoneStore :=
  match store.get origin with
  | some zone =>
      store.setShard (shardIndex origin) ((store.shards (shardIndex origin)).insert origin (f zone))
  | none => store

def getOrCreateAndUpdate (origin : Str) (f : Zone → Zone) : ShardedZoneStore :=
  let zone := (store.get origin).getD (Zone.new origin)
  store.setShard (shardIndex origin) ((store.shards (shardIndex origin)).insert origin (f zone))

/-- The shards iterate in another order. -/
def Reordered (store store' : ShardedZoneStore) : Prop :=
  (∀ i, (store.shards i).Reordered (store'.shards i)) ∧ store'.suffixIndex = store.suffixIndex

end ShardedZoneStore

/-! ### Runs -/

inductive StoreCall where
  | insert (origin : Str) (zone : Zone)
  | remove (origin : Str)
  | updateZone (origin : Str) (f : Zone → Zone)
  | getOrCreateAndUpdate (origin : Str) (f : Zone → Zone)
  | rebuildIndex

def StoreCall.run (lib : Externals) (store : ShardedZoneStore) : StoreCall → ShardedZoneStore
  | .insert origin zone => store.insert lib origin zone
  | .remove origin => store.remove lib origin
  | .updateZone origin f => store.updateZone origin f
  | .getOrCreateAndUpdate origin f => store.getOrCreateAndUpdate origin f
  | .rebuildIndex => store.rebuildIndex lib

/-- Calls on a store that is empty at first; the maps may iterate in any order. -/
def storeSystem (lib : Externals) : System ShardedZoneStore StoreCall where
  init := fun store => store = .new
  step := fun store call store' => ∃ reordered, store.Reordered reordered ∧
    store' = call.run lib reordered

/-! ### What the lookups are for -/

/-- The labels of a name, without its case and its trailing dots. -/
def originLabels (lib : Externals) (name : Str) : List Str := (originLower lib name).splitOn '.'

/-- The labels of the origin are the last labels of the name. -/
def IsLabelSuffix (lib : Externals) (origin qname : Str) : Prop :=
  originLabels lib origin <:+ originLabels lib qname

/-- The origins under which zones are stored. -/
def ShardedZoneStore.Stored (store : ShardedZoneStore) (origin : Str) : Prop :=
  (store.get origin).isSome = true

/-- The lookups find the zone of the longest stored suffix. -/
structure FindsEvery (lib : Externals) (store : ShardedZoneStore) : Prop where
  longest : ∀ qname zone, store.findBySuffix lib qname = some zone →
    ∃ origin, store.get origin = some zone ∧ IsLabelSuffix lib origin qname ∧
      ∀ origin', store.Stored origin' → IsLabelSuffix lib origin' qname →
        (originLabels lib origin').length ≤ (originLabels lib origin).length
  none_iff : ∀ qname, store.findBySuffix lib qname = none ↔
    ∀ origin, store.Stored origin → ¬ IsLabelSuffix lib origin qname
  exact : ∀ origin, store.Stored origin →
    store.findByExact lib origin = store.findBySuffix lib origin

/-- No other origin with the same normal form is stored when one is removed, and one is stored
    already when a zone is created. -/
def KeepsIndex (lib : Externals) (store : ShardedZoneStore) : StoreCall → Prop
  | .remove origin => store.Stored origin → ∀ origin', store.Stored origin' →
      originLower lib origin' = originLower lib origin → origin' = origin
  | .getOrCreateAndUpdate origin _ => ∃ origin', store.Stored origin' ∧
      originLower lib origin' = originLower lib origin
  | _ => True

/-! ### The zones after a call -/

namespace ShardedZoneStore

variable {lib : Externals} {store : ShardedZoneStore}

theorem get_setShard_insert (origin : Str) (zone : Zone) (origin' : Str) :
    (store.setShard (shardIndex origin)
      ((store.shards (shardIndex origin)).insert origin zone)).get origin' =
      if origin' = origin then some zone else store.get origin' := by
  unfold get setShard
  by_cases hshard : shardIndex origin' = shardIndex origin
  · simp only [hshard, Function.update_self, Table.lookup_insert_eq]
  · simp only [Function.update_of_ne hshard]
    rw [if_neg fun h => hshard (congrArg shardIndex h)]

theorem get_setShard_erase (origin origin' : Str) :
    (store.setShard (shardIndex origin)
      ((store.shards (shardIndex origin)).erase origin)).get origin' =
      if origin' = origin then none else store.get origin' := by
  unfold get setShard
  by_cases hshard : shardIndex origin' = shardIndex origin
  · simp only [hshard, Function.update_self, Table.lookup_erase_eq]
  · simp only [Function.update_of_ne hshard]
    rw [if_neg fun h => hshard (congrArg shardIndex h)]

theorem get_insert (origin : Str) (zone : Zone) (origin' : Str) :
    (store.insert lib origin zone).get origin' =
      if origin' = origin then some zone else store.get origin' :=
  get_setShard_insert origin zone origin'

theorem get_remove (origin origin' : Str) :
    (store.remove lib origin).get origin' =
      if origin' = origin then none else store.get origin' := by
  unfold remove
  simp only
  split <;> exact get_setShard_erase origin origin'

theorem suffixIndex_remove (origin : Str) :
    (store.remove lib origin).suffixIndex =
      if (store.get origin).isSome then store.suffixIndex.erase (originLower lib origin)
      else store.suffixIndex := by
  unfold remove
  simp only
  split <;> rfl

theorem updateZone_cases (origin : Str) (f : Zone → Zone) :
    (store.get origin = none ∧ store.updateZone origin f = store) ∨
      ∃ zone, store.get origin = some zone ∧ store.updateZone origin f =
        store.setShard (shardIndex origin)
          ((store.shards (shardIndex origin)).insert origin (f zone)) := by
  unfold updateZone
  cases store.get origin with
  | none => exact .inl ⟨rfl, rfl⟩
  | some zone => exact .inr ⟨zone, rfl, rfl⟩

/-- Every zone is in the shard of its origin. -/
def Placed (store : ShardedZoneStore) : Prop :=
  ∀ i origin, origin ∈ store.shards i → shardIndex origin = i

theorem Placed.setShard_insert (h : store.Placed) (origin : Str) (zone : Zone) :
    (store.setShard (shardIndex origin)
      ((store.shards (shardIndex origin)).insert origin zone)).Placed := by
  intro i origin' hmem
  unfold setShard at hmem
  by_cases hi : i = shardIndex origin
  · subst hi
    simp only [Function.update_self, AList.mem_insert] at hmem
    rcases hmem with rfl | hmem
    · rfl
    · exact h _ _ hmem
  · simp only [Function.update_of_ne hi] at hmem
    exact h i origin' hmem

theorem Placed.setShard_erase (h : store.Placed) (origin : Str) :
    (store.setShard (shardIndex origin)
      ((store.shards (shardIndex origin)).erase origin)).Placed := by
  intro i origin' hmem
  unfold setShard at hmem
  by_cases hi : i = shardIndex origin
  · subst hi
    simp only [Function.update_self, AList.mem_erase] at hmem
    exact h _ _ hmem.2
  · simp only [Function.update_of_ne hi] at hmem
    exact h i origin' hmem

theorem mem_keys_iff (h : store.Placed) (origin : Str) :
    origin ∈ store.keys ↔ store.Stored origin := by
  unfold keys Stored get
  rw [List.mem_flatMap, AList.lookup_isSome]
  constructor
  · rintro ⟨i, -, hmem⟩
    have hmem' : origin ∈ store.shards i := hmem
    rwa [h i origin hmem']
  · exact fun hmem => ⟨shardIndex origin, List.mem_finRange _, hmem⟩

end ShardedZoneStore

/-! ### The index -/

/-- The index leads to a stored origin with the normal form looked for, and has an entry for the
    normal form of every stored origin. -/
structure Indexed (lib : Externals) (store : ShardedZoneStore) : Prop where
  placed : store.Placed
  sound : ∀ name origin, store.suffixIndex.lookup name = some origin →
    originLower lib origin = name ∧ store.Stored origin
  complete : ∀ origin, store.Stored origin →
    (store.suffixIndex.lookup (originLower lib origin)).isSome = true

section index
variable {lib : Externals} {store : ShardedZoneStore}

theorem indexed_new : Indexed lib .new where
  placed := fun i origin hmem => absurd hmem (AList.notMem_empty origin)
  sound := fun name origin h => by simp [ShardedZoneStore.new] at h
  complete := fun origin h => by simp [ShardedZoneStore.Stored, ShardedZoneStore.get,
    ShardedZoneStore.new] at h

theorem Indexed.reordered {store' : ShardedZoneStore} (h : Indexed lib store)
    (horder : store.Reordered store') : Indexed lib store' := by
  have hget : ∀ origin, store'.get origin = store.get origin := fun origin =>
    (horder.1 (shardIndex origin)).lookup origin
  refine ⟨fun i origin hmem => h.placed i origin ?_, ?_, ?_⟩
  · rw [← AList.lookup_isSome] at hmem ⊢
    rwa [← (horder.1 i).lookup origin]
  · intro name origin hlookup
    rw [horder.2] at hlookup
    unfold ShardedZoneStore.Stored
    rw [hget]
    exact h.sound name origin hlookup
  · intro origin hstored
    unfold ShardedZoneStore.Stored at hstored
    rw [hget] at hstored
    rw [horder.2]
    exact h.complete origin hstored

theorem Indexed.insert (h : Indexed lib store) (origin : Str) (zone : Zone) :
    Indexed lib (store.insert lib origin zone) := by
  refine ⟨h.placed.setShard_insert origin zone, ?_, ?_⟩
  · intro name origin' hlookup
    unfold ShardedZoneStore.Stored
    rw [ShardedZoneStore.get_insert]
    rw [ShardedZoneStore.insert, Table.lookup_insert_eq] at hlookup
    split at hlookup
    · next hname =>
      obtain rfl := Option.some.inj hlookup
      exact ⟨hname.symm, by simp⟩
    · obtain ⟨hnormal, hstored⟩ := h.sound name origin' hlookup
      refine ⟨hnormal, ?_⟩
      split
      · rfl
      · exact hstored
  · intro origin' hstored
    unfold ShardedZoneStore.Stored at hstored
    rw [ShardedZoneStore.get_insert] at hstored
    rw [ShardedZoneStore.insert, Table.lookup_insert_eq]
    split
    · rfl
    · next hname =>
      split at hstored
      · next horigin => exact absurd (congrArg (originLower lib) horigin) hname
      · exact h.complete origin' hstored

/-- A zone in place of one that is stored, or besides one with the same normal form. -/
theorem Indexed.setShard (h : Indexed lib store) {origin origin' : Str}
    (hstored : store.Stored origin') (hsame : originLower lib origin' = originLower lib origin)
    (zone : Zone) :
    Indexed lib (store.setShard (shardIndex origin)
      ((store.shards (shardIndex origin)).insert origin zone)) := by
  refine ⟨h.placed.setShard_insert origin zone, ?_, ?_⟩
  · intro name found hlookup
    obtain ⟨hnormal, hfound⟩ := h.sound name found hlookup
    refine ⟨hnormal, ?_⟩
    unfold ShardedZoneStore.Stored
    rw [ShardedZoneStore.get_setShard_insert]
    split
    · rfl
    · exact hfound
  · intro found hfound
    unfold ShardedZoneStore.Stored at hfound
    rw [ShardedZoneStore.get_setShard_insert] at hfound
    show (store.suffixIndex.lookup (originLower lib found)).isSome = true
    split at hfound
    · next horigin =>
      rw [horigin, ← hsame]
      exact h.complete origin' hstored
    · exact h.complete found hfound

theorem Indexed.remove (h : Indexed lib store) {origin : Str}
    (hother : store.Stored origin → ∀ origin', store.Stored origin' →
      originLower lib origin' = originLower lib origin → origin' = origin) :
    Indexed lib (store.remove lib origin) := by
  have hplaced : (store.remove lib origin).Placed := by
    unfold ShardedZoneStore.remove
    simp only
    split <;> exact h.placed.setShard_erase origin
  refine ⟨hplaced, ?_, ?_⟩
  · intro name found hlookup
    rw [ShardedZoneStore.suffixIndex_remove] at hlookup
    unfold ShardedZoneStore.Stored
    rw [ShardedZoneStore.get_remove]
    split at hlookup
    · next hremoved =>
      rw [Table.lookup_erase_eq] at hlookup
      split at hlookup
      · cases hlookup
      · next hname =>
        obtain ⟨hnormal, hfound⟩ := h.sound name found hlookup
        refine ⟨hnormal, ?_⟩
        rw [if_neg fun heq => hname (by rw [← hnormal, heq])]
        exact hfound
    · next hkept =>
      obtain ⟨hnormal, hfound⟩ := h.sound name found hlookup
      refine ⟨hnormal, ?_⟩
      rw [if_neg fun heq : found = origin => hkept (heq ▸ hfound)]
      exact hfound
  · intro found hfound
    unfold ShardedZoneStore.Stored at hfound
    rw [ShardedZoneStore.get_remove] at hfound
    rw [ShardedZoneStore.suffixIndex_remove]
    split at hfound
    · cases hfound
    · next hne =>
      split
      · next hremoved =>
        rw [Table.lookup_erase_eq, if_neg fun heq => hne (hother hremoved found hfound heq)]
        exact h.complete found hfound
      · exact h.complete found hfound

theorem Indexed.rebuildIndex (h : Indexed lib store) : Indexed lib (store.rebuildIndex lib) := by
  refine ⟨h.placed, ?_, ?_⟩
  · intro name origin hlookup
    obtain ⟨found, hfound, heq⟩ := List.mem_map.mp (Table.mem_of_lookup_collect hlookup)
    obtain ⟨rfl, rfl⟩ := Prod.mk.inj heq
    exact ⟨rfl, (ShardedZoneStore.mem_keys_iff h.placed _).mp hfound⟩
  · intro origin hstored
    have hmem : origin ∈ store.keys := (ShardedZoneStore.mem_keys_iff h.placed origin).mpr hstored
    exact Table.isSome_lookup_collect (List.mem_map_of_mem hmem)

/-- Calls that keep the index. -/
theorem Indexed.run (h : Indexed lib store) {call : StoreCall} (hok : KeepsIndex lib store call) :
    Indexed lib (call.run lib store) := by
  cases call with
  | insert origin zone => exact h.insert origin zone
  | remove origin => exact h.remove hok
  | updateZone origin f =>
    show Indexed lib (store.updateZone origin f)
    rcases store.updateZone_cases origin f with ⟨-, heq⟩ | ⟨zone, hzone, heq⟩
    · rwa [heq]
    · rw [heq]
      have hstored : store.Stored origin := by
        unfold ShardedZoneStore.Stored
        rw [hzone]
        rfl
      exact h.setShard hstored rfl _
  | getOrCreateAndUpdate origin f =>
    obtain ⟨origin', hstored, hsame⟩ := hok
    exact h.setShard hstored hsame _
  | rebuildIndex => exact h.rebuildIndex

end index

/-! ### Lookups -/

section lookups
variable (lib : Externals) (store : ShardedZoneStore)

/-- The zone whose origin has these labels, by the index. -/
def zoneAt (labels : List Str) : Option Zone :=
  (store.suffixIndex.lookup (['.'].intercalate labels)).bind store.get

/-- The first of a list of labels and its tails that has a zone. -/
def firstZone : List Str → Option Zone
  | [] => none
  | label :: labels => (zoneAt store (label :: labels)).or (firstZone labels)

theorem findBySuffix_eq (qname : Str) :
    store.findBySuffix lib qname = firstZone store (originLabels lib qname) := by
  have hlabels : ∀ labels : List Str,
      (((labels.tails.filter (· ≠ [])).map ['.'].intercalate).findSome? fun suffix => do
        let originKey ← store.suffixIndex.lookup suffix
        let zone ← store.get originKey
        if true then some zone else none) = firstZone store labels := by
    intro labels
    induction labels with
    | nil => rfl
    | cons label labels ih =>
      rw [List.tails, List.filter_cons_of_pos (by simp), List.map_cons, List.findSome?_cons, ih,
        firstZone, zoneAt]
      cases hkey : store.suffixIndex.lookup (['.'].intercalate (label :: labels)) with
      | none => simp
      | some originKey => cases hzone : store.get originKey <;> simp [hzone]
  exact hlabels _

variable {lib store}

/-- The result has the longest labels of those that have a zone. -/
theorem firstZone_eq_some {labels : List Str} {zone : Zone}
    (h : firstZone store labels = some zone) :
    ∃ suffix, suffix ≠ [] ∧ suffix <:+ labels ∧ zoneAt store suffix = some zone ∧
      ∀ suffix', suffix' ≠ [] → suffix' <:+ labels → (zoneAt store suffix').isSome = true →
        suffix'.length ≤ suffix.length := by
  induction labels with
  | nil => cases h
  | cons label labels ih =>
    rw [firstZone] at h
    cases hfirst : zoneAt store (label :: labels) with
    | some first =>
      rw [hfirst, Option.some_or] at h
      refine ⟨label :: labels, by simp, List.suffix_refl _, hfirst.trans h, ?_⟩
      exact fun suffix' _ hsuffix _ => hsuffix.length_le
    | none =>
      rw [hfirst, Option.none_or] at h
      obtain ⟨suffix, hne, hsuffix, hzone, hlongest⟩ := ih h
      refine ⟨suffix, hne, hsuffix.trans (List.suffix_cons _ _), hzone, ?_⟩
      intro suffix' hne' hsuffix' hsome
      rcases List.suffix_cons_iff.mp hsuffix' with rfl | hsuffix'
      · rw [hfirst] at hsome
        cases hsome
      · exact hlongest suffix' hne' hsuffix' hsome

theorem firstZone_eq_none {labels : List Str} :
    firstZone store labels = none ↔
      ∀ suffix, suffix ≠ [] → suffix <:+ labels → zoneAt store suffix = none := by
  induction labels with
  | nil =>
    refine iff_of_true rfl fun suffix hne hsuffix => absurd (List.suffix_nil.mp hsuffix) hne
  | cons label labels ih =>
    rw [firstZone, Option.or_eq_none_iff, ih]
    constructor
    · rintro ⟨hfirst, hrest⟩ suffix hne hsuffix
      rcases List.suffix_cons_iff.mp hsuffix with rfl | hsuffix
      · exact hfirst
      · exact hrest suffix hne hsuffix
    · intro hall
      exact ⟨hall _ (by simp) (List.suffix_refl _), fun suffix hne hsuffix =>
        hall suffix hne (hsuffix.trans (List.suffix_cons _ _))⟩

theorem intercalate_originLabels (name : Str) :
    ['.'].intercalate (originLabels lib name) = originLower lib name := List.intercalate_splitOn '.'

theorem originLabels_ne_nil (name : Str) : originLabels lib name ≠ [] := List.splitOn_ne_nil _ _

/-- Labels of a name that are the labels of an origin. -/
theorem originLabels_eq_of_suffix {suffix : List Str} {origin qname : Str} (hne : suffix ≠ [])
    (hsuffix : suffix <:+ originLabels lib qname)
    (horigin : originLower lib origin = ['.'].intercalate suffix) :
    originLabels lib origin = suffix := by
  unfold originLabels
  rw [horigin]
  refine List.splitOn_intercalate '.' ?_ hne
  intro label hlabel
  exact notMem_of_mem_splitOn (hsuffix.subset hlabel)

theorem zoneAt_originLabels (origin : Str) :
    zoneAt store (originLabels lib origin) = store.findByExact lib origin := by
  rw [zoneAt, intercalate_originLabels]
  rfl

/-- A zone that the index leads to has its labels. -/
theorem Indexed.zoneAt_eq_some (h : Indexed lib store) {suffix : List Str} {qname : Str}
    {zone : Zone} (hne : suffix ≠ []) (hsuffix : suffix <:+ originLabels lib qname)
    (hzone : zoneAt store suffix = some zone) :
    ∃ origin, store.get origin = some zone ∧ originLabels lib origin = suffix := by
  obtain ⟨origin, hlookup, hget⟩ := Option.bind_eq_some_iff.mp hzone
  obtain ⟨hnormal, -⟩ := h.sound _ _ hlookup
  exact ⟨origin, hget, originLabels_eq_of_suffix hne hsuffix hnormal⟩

/-- A stored origin is found by its name. -/
theorem Indexed.isSome_findByExact (h : Indexed lib store) {origin : Str}
    (hstored : store.Stored origin) : (store.findByExact lib origin).isSome = true := by
  obtain ⟨found, hlookup⟩ := Option.isSome_iff_exists.mp (h.complete origin hstored)
  unfold ShardedZoneStore.findByExact
  rw [hlookup]
  exact (h.sound _ _ hlookup).2

theorem Indexed.finds_every (h : Indexed lib store) : FindsEvery lib store where
  longest := by
    intro qname zone hfound
    rw [findBySuffix_eq] at hfound
    obtain ⟨suffix, hne, hsuffix, hzone, hlongest⟩ := firstZone_eq_some hfound
    obtain ⟨origin, hget, rfl⟩ := h.zoneAt_eq_some hne hsuffix hzone
    refine ⟨origin, hget, hsuffix, fun origin' hstored hsuffix' => ?_⟩
    apply hlongest _ (originLabels_ne_nil origin') hsuffix'
    rw [zoneAt_originLabels]
    exact h.isSome_findByExact hstored
  none_iff := by
    intro qname
    rw [findBySuffix_eq, firstZone_eq_none]
    constructor
    · intro hnone origin hstored hsuffix
      have hsome := h.isSome_findByExact hstored
      rw [← zoneAt_originLabels, hnone _ (originLabels_ne_nil origin) hsuffix] at hsome
      cases hsome
    · intro hall suffix hne hsuffix
      cases hzone : zoneAt store suffix with
      | none => rfl
      | some zone =>
        obtain ⟨origin, hget, rfl⟩ := h.zoneAt_eq_some hne hsuffix hzone
        exact absurd hsuffix (hall origin (by rw [ShardedZoneStore.Stored, hget]; rfl))
  exact := by
    intro origin hstored
    obtain ⟨zone, hzone⟩ := Option.isSome_iff_exists.mp (h.isSome_findByExact hstored)
    rw [findBySuffix_eq]
    cases hlabels : originLabels lib origin with
    | nil => exact absurd hlabels (originLabels_ne_nil origin)
    | cons label labels =>
      rw [firstZone, ← hlabels, zoneAt_originLabels, hzone, Option.some_or]

/-- Stores whose lookups find every zone find each one by its origin. -/
theorem FindsEvery.isSome_findByExact (h : FindsEvery lib store) {origin : Str}
    (hstored : store.Stored origin) : (store.findByExact lib origin).isSome = true := by
  rw [h.exact origin hstored, Option.isSome_iff_ne_none]
  intro hnone
  exact (h.none_iff origin).mp hnone origin hstored (List.suffix_refl _)

end lookups

/-! ### Calls that lose a zone -/

section losses
variable {lib : Externals} {store : ShardedZoneStore}

/-- The index entry of both origins is gone. -/
theorem remove_loses {origin origin' : Str} (hremoved : store.Stored origin)
    (hstored : store.Stored origin')
    (hsame : originLower lib origin' = originLower lib origin) (hne : origin' ≠ origin) :
    ¬ FindsEvery lib (store.remove lib origin) := by
  intro hfinds
  have hstored' : (store.remove lib origin).Stored origin' := by
    unfold ShardedZoneStore.Stored
    rw [ShardedZoneStore.get_remove, if_neg hne]
    exact hstored
  have hfound := hfinds.isSome_findByExact hstored'
  have hremoved' : (store.get origin).isSome = true := hremoved
  rw [ShardedZoneStore.findByExact, ShardedZoneStore.suffixIndex_remove, if_pos hremoved',
    Table.lookup_erase_eq, if_pos hsame] at hfound
  cases hfound

/-- The created zone has no index entry. -/
theorem getOrCreateAndUpdate_loses (h : Indexed lib store) {origin : Str}
    (hnew : ∀ origin', store.Stored origin' →
      originLower lib origin' ≠ originLower lib origin) (f : Zone → Zone) :
    ¬ FindsEvery lib (store.getOrCreateAndUpdate origin f) := by
  intro hfinds
  have hstored : (store.getOrCreateAndUpdate origin f).Stored origin := by
    unfold ShardedZoneStore.Stored ShardedZoneStore.getOrCreateAndUpdate
    rw [ShardedZoneStore.get_setShard_insert, if_pos rfl]
    rfl
  have hnone : store.suffixIndex.lookup (originLower lib origin) = none := by
    cases hlookup : store.suffixIndex.lookup (originLower lib origin) with
    | none => rfl
    | some found =>
      obtain ⟨hnormal, hfound⟩ := h.sound _ _ hlookup
      exact absurd hnormal (hnew found hfound)
  have hindex : (store.getOrCreateAndUpdate origin f).suffixIndex = store.suffixIndex := rfl
  have hfound := hfinds.isSome_findByExact hstored
  rw [ShardedZoneStore.findByExact, hindex, hnone] at hfound
  cases hfound

/-- The lookups after a call find every zone just when the call kept the index. -/
theorem Indexed.finds_every_run_iff (h : Indexed lib store) (call : StoreCall) :
    FindsEvery lib (call.run lib store) ↔ KeepsIndex lib store call := by
  refine ⟨fun hfinds => ?_, fun hok => (h.run hok).finds_every⟩
  cases call with
  | insert origin zone => trivial
  | remove origin =>
    intro hremoved origin' hstored hsame
    by_contra hne
    exact remove_loses hremoved hstored hsame hne hfinds
  | updateZone origin f => trivial
  | getOrCreateAndUpdate origin f =>
    by_contra hnew
    refine getOrCreateAndUpdate_loses h ?_ f hfinds
    exact fun origin' hstored hsame => hnew ⟨origin', hstored, hsame⟩
  | rebuildIndex => trivial

theorem keepsIndex_reordered {store' : ShardedZoneStore} (h : store.Reordered store')
    (call : StoreCall) : KeepsIndex lib store' call ↔ KeepsIndex lib store call := by
  have hstored : ∀ origin, store'.Stored origin ↔ store.Stored origin := fun origin => by
    unfold ShardedZoneStore.Stored ShardedZoneStore.get
    rw [(h.1 (shardIndex origin)).lookup origin]
  cases call <;> simp only [KeepsIndex, hstored]

end losses

/-- The lookups find every zone in all states of a run just when every call of it keeps the
    index. -/
theorem finds_every_iff (lib : Externals) (calls : List (ShardedZoneStore × StoreCall))
    (store : ShardedZoneStore) (h : (storeSystem lib).Exec calls store) :
    (∀ state ∈ calls.map Prod.fst ++ [store], FindsEvery lib state) ↔
      ∀ call ∈ calls, KeepsIndex lib call.1 call.2 := by
  refine System.Exec.states_iff_of (FindsEvery lib) (Indexed lib) (KeepsIndex lib) ?_ ?_ h
  · rintro _ rfl
    exact ⟨indexed_new.finds_every, indexed_new⟩
  · rintro s call _ hindexed ⟨reordered, horder, rfl⟩
    have hreordered := hindexed.reordered horder
    have hiff := hreordered.finds_every_run_iff call
    rw [keepsIndex_reordered horder] at hiff
    exact ⟨hiff, fun hfinds => hreordered.run
      ((keepsIndex_reordered horder call).mpr (hiff.mp hfinds))⟩

/-- The zone `A.`, and the zone `b.a` in it. -/
def outerStored : ShardedZoneStore :=
  ShardedZoneStore.new.insert asciiExternals "A.".toList (Zone.new "A.".toList)

def innerStored : ShardedZoneStore :=
  outerStored.insert asciiExternals "b.a".toList (Zone.new "b.a".toList)

/-- A name below both is found in the inner one, and a name below the outer one there. -/
theorem nested_zones_found :
    (storeSystem asciiExternals).Exec
        [(.new, .insert "A.".toList (Zone.new "A.".toList)),
          (outerStored, .insert "b.a".toList (Zone.new "b.a".toList))] innerStored ∧
      (innerStored.findBySuffix asciiExternals "www.b.a".toList).map Zone.origin =
        some "b.a".toList ∧
      (innerStored.findBySuffix asciiExternals "www.a".toList).map Zone.origin =
        some "A.".toList ∧
      FindsEvery asciiExternals innerStored := by
  have houter : (storeSystem asciiExternals).Exec
      [(.new, .insert "A.".toList (Zone.new "A.".toList))] outerStored :=
    ⟨.new, rfl, .snoc .nil ⟨.new, ⟨fun _ => .refl _, rfl⟩, rfl⟩⟩
  have hrun : (storeSystem asciiExternals).Exec
      [(.new, .insert "A.".toList (Zone.new "A.".toList)),
        (outerStored, .insert "b.a".toList (Zone.new "b.a".toList))] innerStored :=
    houter.snoc ⟨outerStored, ⟨fun _ => .refl _, rfl⟩, rfl⟩
  refine ⟨hrun, by decide +kernel, by decide +kernel,
    (finds_every_iff _ _ _ hrun).mpr ?_ _ (by simp)⟩
  intro call hcall
  simp only [List.mem_cons, List.not_mem_nil, or_false] at hcall
  rcases hcall with rfl | rfl
  · trivial
  · trivial

/-- The zone `a` is created by an update of it, and then not found. -/
theorem created_zone_not_found :
    (storeSystem asciiExternals).Exec [(.new, .getOrCreateAndUpdate ['a'] id)]
        (ShardedZoneStore.new.getOrCreateAndUpdate ['a'] id) ∧
      (ShardedZoneStore.new.getOrCreateAndUpdate ['a'] id).get ['a'] = some (Zone.new ['a']) ∧
      (ShardedZoneStore.new.getOrCreateAndUpdate ['a'] id).findBySuffix asciiExternals ['a'] =
        none ∧
      ¬ FindsEvery asciiExternals (ShardedZoneStore.new.getOrCreateAndUpdate ['a'] id) := by
  refine ⟨⟨.new, rfl, .snoc .nil ⟨.new, ⟨fun _ => .refl _, rfl⟩, rfl⟩⟩, ?_, rfl, ?_⟩
  · exact @ShardedZoneStore.get_setShard_insert .new ['a'] _ ['a']
  · refine getOrCreateAndUpdate_loses indexed_new (fun origin' hstored => ?_) id
    simp [ShardedZoneStore.Stored, ShardedZoneStore.get, ShardedZoneStore.new] at hstored

end Synvoid.Dns
