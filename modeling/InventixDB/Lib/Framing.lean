import Mathlib.Data.List.Basic

/-!
# Framing — messages in a stream that arrives in pieces

`front` looks at the front of a buffer: it shows a whole message with its length, or only a part of
one, or something else.  Taking whole messages off the front of what has arrived gives the messages
sent, up to the one that is still incomplete, wherever the stream was cut.
-/

namespace InventixDB
namespace Lib
namespace Framing

variable {β μ ν : Type*}

inductive Front (ν : Type*) where
  | incomplete
  | invalid
  | whole (m : ν) (size : Nat)

/-- The messages taken off, what is left of the buffer, and whether it can still be a message. -/
structure Taken (β ν : Type*) where
  messages : List ν
  rest : List β
  valid : Bool

/-- Take whole messages off the front, at most `fuel` of them. -/
def takeAll (front : List β → Front ν) : Nat → List β → Taken β ν
  | 0, buffer => { messages := [], rest := buffer, valid := true }
  | fuel + 1, buffer =>
      match front buffer with
      | .incomplete => { messages := [], rest := buffer, valid := true }
      | .invalid => { messages := [], rest := buffer, valid := false }
      | .whole m size =>
          let taken := takeAll front fuel (buffer.drop size)
          { taken with messages := m :: taken.messages }

/-- `front` knows the message by its encoding, and no part of it for a whole one. -/
structure Reads (front : List β → Front ν) (encode : μ → List β) (shown : μ → ν) (m : μ) :
    Prop where
  nonempty : encode m ≠ []
  whole : ∀ rest, front (encode m ++ rest) = .whole (shown m) (encode m).length
  part : ∀ part, part <+: encode m → part.length < (encode m).length → front part = .incomplete

/-- What has arrived of the messages still to come: a part of the first one. -/
def Arriving (encode : μ → List β) : List μ → List β → Prop
  | [], rest => rest = []
  | m :: _, rest => rest <+: encode m ∧ rest.length < (encode m).length

variable {front : List β → Front ν} {encode : μ → List β} {shown : μ → ν} {todo : List μ}
  {buffer rest : List β}

/-- While messages are to come, something of them is. -/
theorem Arriving.length_lt (harr : Arriving encode todo rest) (htodo : todo ≠ []) :
    rest.length < (todo.flatMap encode).length := by
  cases todo with
  | nil => exact absurd rfl htodo
  | cons m todo =>
      rw [List.flatMap_cons, List.length_append]
      exact Nat.lt_of_lt_of_le harr.2 (Nat.le_add_right _ _)

/-- Whatever has arrived, the whole messages come off it and a part of the next one stays. -/
theorem takeAll_arrived (hempty : front [] = .incomplete)
    (hreads : ∀ m ∈ todo, Reads front encode shown m) {fuel : Nat}
    (hbuffer : buffer <+: todo.flatMap encode) (hfuel : buffer.length ≤ fuel) :
    ∃ done todo' rest, todo = done ++ todo' ∧ buffer = done.flatMap encode ++ rest ∧
      Arriving encode todo' rest ∧
      takeAll front fuel buffer =
        { messages := done.map shown, rest := rest, valid := true } := by
  induction todo generalizing buffer fuel with
  | nil =>
      obtain rfl := List.prefix_nil.mp hbuffer
      refine ⟨[], [], [], rfl, rfl, rfl, ?_⟩
      cases fuel with
      | zero => rfl
      | succ fuel =>
          rw [takeAll, hempty]
          rfl
  | cons m todo ih =>
      obtain ⟨hm, htodo⟩ := List.forall_mem_cons.mp hreads
      rw [List.flatMap_cons] at hbuffer
      by_cases hlen : buffer.length < (encode m).length
      · -- The first message is incomplete.
        have hpart := List.prefix_of_prefix_length_le hbuffer (List.prefix_append _ _)
          (Nat.le_of_lt hlen)
        refine ⟨[], m :: todo, buffer, rfl, rfl, ⟨hpart, hlen⟩, ?_⟩
        cases fuel with
        | zero => rfl
        | succ fuel =>
            rw [takeAll, hm.part buffer hpart hlen]
            rfl
      · have hwhole := List.prefix_of_prefix_length_le (List.prefix_append (encode m) _) hbuffer
          (Nat.le_of_not_lt hlen)
        obtain ⟨buffer, rfl⟩ := hwhole
        have hpos := List.length_pos_iff.mpr hm.nonempty
        rw [List.length_append] at hfuel
        obtain ⟨fuel, rfl⟩ : ∃ n, fuel = n + 1 := ⟨fuel - 1, by omega⟩
        obtain ⟨done, todo', rest, rfl, rfl, harr, htake⟩ :=
          @ih buffer htodo fuel ((List.prefix_append_right_inj _).mp hbuffer) (by omega)
        refine ⟨m :: done, todo', rest, rfl, ?_, harr, ?_⟩
        · rw [List.flatMap_cons, List.append_assoc]
        · rw [takeAll, hm.whole]
          dsimp only
          rw [List.drop_left, htake]
          rfl

end Framing
end Lib
end InventixDB
