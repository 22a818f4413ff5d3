import ClassLang.Log.Record
import ClassLang.Proofs.Dict
import ClassLang.Proofs.Text.Json

/-!
The structured form of a record. It is one line and one JSON object, from which the record is known
again: its level, its texts, its line, and of each field the value that was given last.
-/

namespace ClassLang.Log

open Text (Json.Value)
open Text.Json

theorem Level.key_injective {l l' : Level} (h : l.key = l'.key) : l = l' := by
  have hread (l : Level) : Level.ofText? l.key = some l := by cases l <;> decide
  have := hread l
  rw [h, hread l'] at this
  exact (Option.some.inj this).symm

namespace Record

variable {time : String} {r : Record}

/-- The value that the structured form of a record is written for. -/
def value (time : String) (r : Record) : Value :=
  .object [
    ("ts", .string time),
    ("level", .string r.level.key),
    ("target", .string r.target),
    ("file", .string r.file),
    ("line", .number r.line 0),
    ("msg", .string r.message),
    ("fields", .object ((Dict.ofList r.fields).map .string).toList)]

theorem writes_json (time : String) (r : Record) : Writes (r.json time).toList (r.value time) := by
  have hfields : WritesAll ((Dict.ofList r.fields).toList.map fun f => (f.1, string f.2))
      ((Dict.ofList r.fields).map Value.string).toList := by
    rw [WritesAll, Dict.map, List.forall₂_map_left_iff, List.forall₂_map_right_iff,
      List.forall₂_same]
    exact fun f _ => ⟨rfl, writes_string f.2⟩
  rw [json, String.toList_ofList]
  apply writes_object
  exact .cons ⟨rfl, writes_string _⟩ (.cons ⟨rfl, writes_string _⟩ (.cons ⟨rfl, writes_string _⟩
    (.cons ⟨rfl, writes_string _⟩ (.cons ⟨rfl, writes_number _⟩ (.cons ⟨rfl, writes_string _⟩
      (.cons ⟨rfl, writes_object hfields⟩ .nil))))))

theorem read_json (time : String) (r : Record) : read (r.json time) = some (r.value time) := by
  have hread := (writes_json time r).read_eq
  rwa [String.ofList_toList] at hread

/-- The structured form of a record has no control character in it. It is read as one object with
all that the record says, where each field has the value that was given last. So records with one
structured form agree on all of this. -/
theorem json_faithful (time : String) (r : Record) :
    (∀ c ∈ (r.json time).toList, 0x20 ≤ c.toNat) ∧
    (∃ fields, read (r.json time) = some (.object [
        ("ts", .string time),
        ("level", .string r.level.key),
        ("target", .string r.target),
        ("file", .string r.file),
        ("line", .number r.line 0),
        ("msg", .string r.message),
        ("fields", .object fields)]) ∧
      (fields.map Prod.fst).Pairwise (· < ·) ∧
      ∀ k, fields.lookup k = (r.fields.reverse.lookup k).map .string) ∧
    ∀ time' r', json time' r' = r.json time →
      r'.level = r.level ∧ r'.target = r.target ∧ r'.file = r.file ∧ r'.line = r.line ∧
        r'.message = r.message ∧ ∀ k, r'.fields.reverse.lookup k = r.fields.reverse.lookup k := by
  have hlookup (r : Record) (k : String) :
      ((Dict.ofList r.fields).map Value.string).toList.lookup k =
        (r.fields.reverse.lookup k).map .string := by
    rw [← Dict.get?_ofList]
    exact Dict.get?_map Value.string (Dict.ofList r.fields) k
  refine ⟨(writes_json time r).inline, ⟨_, read_json time r, ?_, hlookup r⟩, ?_⟩
  · exact List.pairwise_map.2 (Dict.sorted _)
  · intro time' r' htext
    have hvalue : r'.value time' = r.value time := by
      have hread := read_json time' r'
      rw [htext, read_json] at hread
      exact (Option.some.inj hread).symm
    simp only [value, Value.object.injEq, List.cons.injEq, Prod.mk.injEq, Value.string.injEq,
      Value.number.injEq, true_and, and_true, Int.natCast_inj] at hvalue
    obtain ⟨-, hlevel, htarget, hfile, hline, hmessage, hfields⟩ := hvalue
    refine ⟨Level.key_injective hlevel, htarget, hfile, hline, hmessage, fun k => ?_⟩
    have hmap := hlookup r k
    rw [← hfields, hlookup r'] at hmap
    exact Option.map_injective (fun _ _ => Value.string.inj) hmap

/-- A record of one field. -/
def retried : Record := ⟨.warn, "first\nsecond \"line\" \\", "calls", "run.src", 7, [("try", "2")]⟩

/-- The same record with an earlier value of its field, which its structured form does not show. -/
theorem json_faithful_retried :
    json "0" { retried with fields := [("try", "1"), ("try", "2")] } = retried.json "0" ∧
      '\n' ∈ retried.message.toList ∧ '\n' ∉ (retried.json "0").toList ∧
      [("try", "1"), ("try", "2")].reverse.lookup "try" = retried.fields.reverse.lookup "try" := by
  have htext : json "0" { retried with fields := [("try", "1"), ("try", "2")] } =
      retried.json "0" := rfl
  refine ⟨htext, by decide, fun hmem => ?_, ?_⟩
  · exact absurd ((json_faithful "0" retried).1 _ hmem) (by decide)
  · exact ((json_faithful "0" retried).2.2 "0" _ htext).2.2.2.2.2 "try"

end Record

end ClassLang.Log
