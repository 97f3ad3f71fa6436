import IoUring.Foundation.Packed
import Mathlib.Logic.Function.Basic
import Mathlib.Logic.Pairwise

/-!
# Memory in several regions

Memory is a number of regions of bytes. A load or a store at a place that is not
inside its region fails. A data structure keeps each of its cells at a place of
its own; as long as no two places overlap, a store to one cell changes the
contents of that cell and of no other.
-/

namespace IoUring.Foundation

variable {ρ ι : Type*}

abbrev Regions (ρ : Type*) := ρ → List UInt8

/-- A stretch of one region. -/
structure Place (ρ : Type*) where
  region : ρ
  offset : Nat
  size : Nat

/-- No byte of the one is a byte of the other. -/
def Place.Apart (a b : Place ρ) : Prop :=
  a.region = b.region → a.offset + a.size ≤ b.offset ∨ b.offset + b.size ≤ a.offset

theorem Place.Apart.symm {a b : Place ρ} (h : a.Apart b) : b.Apart a :=
  fun heq => (h heq.symm).symm

/-- The place of a packed value. -/
def Place.of (E : Type) [Packed E] (region : ρ) (offset : Nat) : Place ρ where
  region := region
  offset := offset
  size := Packed.size E

namespace Regions

def load (mem : Regions ρ) (p : Place ρ) : Option (List UInt8) :=
  slice (mem p.region) p.offset (p.offset + p.size)

def store [DecidableEq ρ] (mem : Regions ρ) (p : Place ρ) (data : List UInt8) :
    Option (Regions ρ) :=
  if data.length = p.size ∧ p.offset + p.size ≤ (mem p.region).length then
    some (Function.update mem p.region (overwrite (mem p.region) p.offset data))
  else none

variable {mem mem' : Regions ρ} {p other : Place ρ} {data : List UInt8}

/-- What is loaded lies inside its region and fills the place. -/
theorem of_load (h : mem.load p = some data) :
    p.offset + p.size ≤ (mem p.region).length ∧ data.length = p.size := by
  obtain ⟨hinside, hdata⟩ := of_slice h
  refine ⟨hinside, ?_⟩
  rw [← hdata, List.length_take, List.length_drop]
  omega

theorem load_of_le (h : p.offset + p.size ≤ (mem p.region).length) :
    ∃ data, mem.load p = some data :=
  ⟨_, slice_of_le (Nat.le_add_right ..) h⟩

section Store

variable [DecidableEq ρ]

/-- A store of the right length to a place that can be loaded succeeds. -/
theorem store_of_load {old : List UInt8} (hload : mem.load p = some old)
    (hlen : data.length = p.size) : ∃ mem', mem.store p data = some mem' :=
  ⟨_, if_pos ⟨hlen, (of_load hload).1⟩⟩

theorem of_store (h : mem.store p data = some mem') :
    (data.length = p.size ∧ p.offset + p.size ≤ (mem p.region).length) ∧
      Function.update mem p.region (overwrite (mem p.region) p.offset data) = mem' := by
  unfold store at h
  split at h
  · rename_i hfits
    exact ⟨hfits, Option.some.inj h⟩
  · cases h

/-- What was stored is loaded. -/
theorem load_store_same (h : mem.store p data = some mem') : mem'.load p = some data := by
  obtain ⟨⟨hlen, hinside⟩, rfl⟩ := of_store h
  rw [load, Function.update_self]
  exact slice_overwrite (by omega) (by omega)

/-- What lies apart is as it was. -/
theorem load_store_apart (h : mem.store p data = some mem') (hapart : p.Apart other) :
    mem'.load other = mem.load other := by
  obtain ⟨⟨hlen, hinside⟩, rfl⟩ := of_store h
  by_cases hregion : p.region = other.region
  · rw [load, load, ← hregion, Function.update_self]
    rcases hapart hregion with hbefore | hafter
    · exact slice_overwrite_after (by omega) (by omega)
    · exact slice_overwrite_before (by omega) hafter
  · rw [load, load, Function.update_of_ne (Ne.symm hregion)]

end Store

/-! ## The image of a data structure -/

/-- Every cell's place holds the cell's contents. -/
def Image (place : ι → Place ρ) (contents : ι → List UInt8) (mem : Regions ρ) : Prop :=
  ∀ i, mem.load (place i) = some (contents i)

variable {place : ι → Place ρ} {contents : ι → List UInt8}

/-- Where all places are inside their regions there is an image. -/
theorem Image.of_inside (h : ∀ i, (place i).offset + (place i).size ≤
    (mem (place i).region).length) : ∃ contents, Image place contents mem :=
  ⟨fun i => ((load_of_le (h i)).choose), fun i => (load_of_le (h i)).choose_spec⟩

/-- A store to one cell succeeds, and changes its contents alone. -/
theorem Image.store [DecidableEq ρ] [DecidableEq ι]
    (apart : Pairwise (Function.onFun Place.Apart place)) (h : Image place contents mem) (i : ι)
    (hlen : data.length = (place i).size) :
    ∃ mem', mem.store (place i) data = some mem' ∧
      Image place (Function.update contents i data) mem' := by
  obtain ⟨mem', hstore⟩ := store_of_load (h i) hlen
  refine ⟨mem', hstore, ?_⟩
  intro j
  by_cases heq : j = i
  · subst heq
    rw [Function.update_self]
    exact load_store_same hstore
  · rw [Function.update_of_ne heq, load_store_apart hstore (apart (Ne.symm heq))]
    exact h j

/-! ## Packed values -/

variable {E : Type} [Packed E]

def fetch (mem : Regions ρ) (E : Type) [Packed E] (region : ρ) (offset : Nat) : Option E :=
  (mem.load (Place.of E region offset)).map Packed.ofBytes

def put [DecidableEq ρ] (mem : Regions ρ) (region : ρ) (offset : Nat) (e : E) :
    Option (Regions ρ) :=
  mem.store (Place.of E region offset) (Packed.bytes e)

variable {region : ρ} {offset : Nat} {e : E}

/-- A place holds the bytes of a value exactly if the value is fetched from it. -/
theorem fetch_eq_some_iff :
    mem.fetch E region offset = some e ↔
      mem.load (Place.of E region offset) = some (Packed.bytes e) := by
  constructor
  · intro h
    obtain ⟨data, hload, rfl⟩ := Option.map_eq_some_iff.mp h
    rw [hload, Packed.bytes_ofBytes (of_load hload).2]
  · intro h
    rw [fetch, h, Option.map_some, Packed.ofBytes_bytes]

/-- Putting a value into the cell at its place changes that cell alone. -/
theorem Image.put [DecidableEq ρ] [DecidableEq ι]
    (apart : Pairwise (Function.onFun Place.Apart place)) (h : Image place contents mem) {i : ι}
    (hplace : place i = Place.of E region offset) (e : E) :
    ∃ mem', mem.put region offset e = some mem' ∧
      Image place (Function.update contents i (Packed.bytes e)) mem' := by
  have hlen : (Packed.bytes e).length = (place i).size := by
    rw [hplace]
    exact Packed.length_bytes e
  have hstore := h.store apart i hlen
  rwa [hplace] at hstore

/-- Fetching a value from its place reads the cell. -/
theorem Image.fetch (h : Image place contents mem) {i : ι}
    (hplace : place i = Place.of E region offset) (hcontents : contents i = Packed.bytes e) :
    mem.fetch E region offset = some e := by
  rw [fetch_eq_some_iff, ← hplace, ← hcontents]
  exact h i

end Regions

end IoUring.Foundation
