import Quadlet.Text.Bytes
/-!
# Key maps — finite maps from strings of octets, in the order of the keys

The entries are kept strictly in order, so a map has one form and is walked from its least key on.  What is written
last for a key holds.
-/
namespace Quadlet

structure KeyMap (α : Type) where
  entries : List (Bytes × α)
  ordered : entries.Pairwise (fun a b => a.1 < b.1)

namespace KeyMap

variable {α : Type}

def empty : KeyMap α := ⟨[], .nil⟩

/-- The entries with `v` for `k`, at its place in the order. -/
def place (k : Bytes) (v : α) : List (Bytes × α) → List (Bytes × α)
  | [] => [(k, v)]
  | e :: rest =>
    if k = e.1 then (k, v) :: rest
    else if k < e.1 then (k, v) :: e :: rest
    else e :: place k v rest

theorem mem_place {k : Bytes} {v : α} {e : Bytes × α} :
    ∀ {es : List (Bytes × α)}, e ∈ place k v es → e = (k, v) ∨ e ∈ es
  | [], h => by simpa [place] using h
  | f :: rest, h => by
    unfold place at h
    split at h
    · rcases List.mem_cons.1 h with h | h
      · exact .inl h
      · exact .inr (List.mem_cons_of_mem _ h)
    · split at h
      · exact List.mem_cons.1 h
      · rcases List.mem_cons.1 h with h | h
        · exact .inr (h ▸ List.mem_cons_self)
        · exact (mem_place h).imp_right (List.mem_cons_of_mem _)

theorem ordered_place (k : Bytes) (v : α) :
    ∀ {es : List (Bytes × α)}, es.Pairwise (fun a b => a.1 < b.1) → (place k v es).Pairwise (fun a b => a.1 < b.1)
  | [], _ => List.pairwise_singleton ..
  | e :: rest, h => by
    rw [List.pairwise_cons] at h
    unfold place
    split
    · next hk => exact List.pairwise_cons.2 ⟨fun x hx => hk ▸ h.1 x hx, h.2⟩
    · next hk =>
      split
      · next hlt =>
        refine List.pairwise_cons.2 ⟨fun x hx => ?_, List.pairwise_cons.2 h⟩
        rcases List.mem_cons.1 hx with rfl | hx
        · exact hlt
        · exact List.lt_trans hlt (h.1 x hx)
      · next hlt =>
        refine List.pairwise_cons.2 ⟨fun x hx => ?_, ordered_place k v h.2⟩
        rcases mem_place hx with rfl | hx
        · exact Std.lt_of_le_of_ne (List.not_lt.1 hlt) (Ne.symm hk)
        · exact h.1 x hx

/-- The map with `v` for `k`, whatever it held for `k` before. -/
def insert (m : KeyMap α) (k : Bytes) (v : α) : KeyMap α := ⟨place k v m.entries, ordered_place k v m.ordered⟩

/-- What the map holds for a key. -/
def find? (m : KeyMap α) (k : Bytes) : Option α := (m.entries.find? (fun e => e.1 == k)).map Prod.snd

/-- The map that entries spell, the last one for each key. -/
def ofList (es : List (Bytes × α)) : KeyMap α := es.foldl (fun m e => m.insert e.1 e.2) empty

def keys (m : KeyMap α) : List Bytes := m.entries.map Prod.fst

def values (m : KeyMap α) : List α := m.entries.map Prod.snd

def size (m : KeyMap α) : Nat := m.entries.length

theorem find?_place (k : Bytes) (v : α) (k' : Bytes) :
    ∀ es : List (Bytes × α), ((place k v es).find? (fun e => e.1 == k')).map Prod.snd =
      if k' = k then some v else (es.find? (fun e => e.1 == k')).map Prod.snd
  | [] => by
    by_cases h : k = k'
    · simp [place, h]
    · simp [place, h, Ne.symm h]
  | e :: rest => by
    have ih := find?_place k v k' rest
    by_cases h : k' = k
    · subst h
      unfold place
      split
      · simp
      · split
        · simp
        · next hk _ => simpa [Ne.symm hk] using ih
    · simp only [if_neg h] at ih ⊢
      unfold place
      split
      · next hk => simp [← hk, Ne.symm h]
      · split
        · simp [Ne.symm h]
        · by_cases he : e.1 = k'
          · simp [he]
          · simpa [he] using ih

@[simp] theorem find?_insert (m : KeyMap α) (k : Bytes) (v : α) (k' : Bytes) :
    (m.insert k v).find? k' = if k' = k then some v else m.find? k' :=
  find?_place k v k' m.entries

end KeyMap
end Quadlet
