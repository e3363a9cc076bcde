import Mathlib

/-!
# Streams of delimited records

A list over any alphabet is cut at each occurrence of a delimiter: the
complete records, each with its delimiter, and the remainder after the last
one. Cutting a concatenation continues from the remainder of its first part,
so the records of a stream do not depend on how it arrives.
-/

namespace XmrigCC.DelimitedStream

variable {α : Type*} [DecidableEq α]

/-- Complete records of a list, delimiters included, and the remainder. -/
def cut (d : α) : List α → List (List α)×List α
  | [] => ([],[])
  | x::xs =>
    let tail := cut d xs
    if x=d then ([x]::tail.1,tail.2)
    else
      match tail.1 with
      | [] => ([],x::tail.2)
      | record::records => ((x::record)::records,tail.2)

/-- The complete records, in order. -/
def records (d : α) (xs : List α) : List (List α) := (cut d xs).1

/-- What follows the last delimiter. -/
def remainder (d : α) (xs : List α) : List α := (cut d xs).2

@[simp] theorem records_nil (d : α) : records d []=[] := rfl

@[simp] theorem remainder_nil (d : α) : remainder d []=[] := rfl

/-- A list without the delimiter has no complete record and is its own remainder. -/
theorem cut_of_not_mem {d : α} {xs : List α} (h : d∉xs) : cut d xs=([],xs) := by
  induction xs with
  | nil => rfl
  | cons x xs ih =>
    obtain ⟨hx,hxs⟩ := not_or.mp (fun hm => h (List.mem_cons.mpr hm))
    rw [cut,ih hxs]
    dsimp only
    rw [if_neg (Ne.symm hx)]

theorem records_of_not_mem {d : α} {xs : List α} (h : d∉xs) : records d xs=[] := by
  rw [records,cut_of_not_mem h]

theorem remainder_of_not_mem {d : α} {xs : List α} (h : d∉xs) : remainder d xs=xs := by
  rw [remainder,cut_of_not_mem h]

/-- The first delimiter closes the first record. -/
theorem cut_append_cons {d : α} {xs : List α} (h : d∉xs) (ys : List α) :
    cut d (xs++d::ys)=((xs++[d])::records d ys,remainder d ys) := by
  induction xs with
  | nil => simp only [List.nil_append,cut,if_pos,records,remainder]
  | cons x xs ih =>
    obtain ⟨hx,hxs⟩ := not_or.mp (fun hm => h (List.mem_cons.mpr hm))
    rw [List.cons_append,cut,ih hxs]
    dsimp only
    rw [if_neg (Ne.symm hx)]
    rfl

theorem records_append_cons {d : α} {xs : List α} (h : d∉xs) (ys : List α) :
    records d (xs++d::ys)=(xs++[d])::records d ys := by
  rw [records,cut_append_cons h]

theorem remainder_append_cons {d : α} {xs : List α} (h : d∉xs) (ys : List α) :
    remainder d (xs++d::ys)=remainder d ys := by
  rw [remainder,cut_append_cons h]

/-- Records can be found one at a time: either there is none, or the list
starts with a first record and the rest is cut the same way. -/
theorem cut_induction {d : α} {P : List α → Prop} (none : ∀ xs, d∉xs → P xs)
    (first : ∀ xs ys, d∉xs → P ys → P (xs++d::ys)) (xs : List α) : P xs := by
  induction hn : xs.length using Nat.strong_induction_on generalizing xs with
  | h n ih =>
    by_cases hd : d∈xs
    · obtain ⟨ys,zs,rfl,hys⟩ := List.eq_append_cons_of_mem hd
      have hlen : zs.length<n := by
        rw [←hn,List.length_append,List.length_cons]
        omega
      exact first ys zs hys (ih zs.length hlen zs rfl)
    · exact none xs hd

/-- The remainder has no delimiter. -/
theorem not_mem_remainder (d : α) (xs : List α) : d∉remainder d xs := by
  induction xs using cut_induction (d:=d) with
  | none xs h => rwa [remainder_of_not_mem h]
  | first xs ys h ih => rwa [remainder_append_cons h]

/-- Records and remainder together are the whole list. -/
theorem flatten_records_append_remainder (d : α) (xs : List α) :
    (records d xs).flatten++remainder d xs=xs := by
  induction xs using cut_induction (d:=d) with
  | none xs h => rw [records_of_not_mem h,remainder_of_not_mem h]; rfl
  | first xs ys h ih =>
    rw [records_append_cons h,remainder_append_cons h,List.flatten_cons,List.append_assoc,ih,
      List.append_assoc]
    rfl

/-- The remainder is never longer than the list. -/
theorem length_remainder_le (d : α) (xs : List α) : (remainder d xs).length ≤ xs.length := by
  have h := congrArg List.length (flatten_records_append_remainder d xs)
  rw [List.length_append] at h
  omega

/-- Cutting a concatenation continues from the remainder of its first part. -/
theorem records_append (d : α) (xs ys : List α) :
    records d (xs++ys)=records d xs++records d (remainder d xs++ys) := by
  induction xs using cut_induction (d:=d) with
  | none xs h => rw [records_of_not_mem h,remainder_of_not_mem h,List.nil_append]
  | first xs zs h ih =>
    rw [List.append_assoc,List.cons_append,records_append_cons h,records_append_cons h,
      remainder_append_cons h,ih,List.cons_append]

theorem remainder_append (d : α) (xs ys : List α) :
    remainder d (xs++ys)=remainder d (remainder d xs++ys) := by
  induction xs using cut_induction (d:=d) with
  | none xs h => rw [remainder_of_not_mem h]
  | first xs zs h ih =>
    rw [List.append_assoc,List.cons_append,remainder_append_cons h,remainder_append_cons h,ih]

/-- A record that starts with an open remainder is longer than it: its delimiter
lies in what follows. -/
theorem first_record_of_open {d : α} {xs ys record : List α} {rest : List (List α)}
    (hx : d∉xs) (h : records d (xs++ys)=record::rest) :
    ∃ zs ws, d∉zs ∧ ys=zs++d::ws ∧ record=xs++(zs++[d]) := by
  have hy : d∈ys := by
    by_contra hy
    rw [records_of_not_mem (by rw [List.mem_append]; tauto)] at h
    cases h
  obtain ⟨zs,ws,rfl,hzs⟩ := List.eq_append_cons_of_mem hy
  refine ⟨zs,ws,hzs,rfl,?_⟩
  have hn : d∉xs++zs := by rw [List.mem_append]; tauto
  rw [←List.append_assoc,records_append_cons hn,List.cons.injEq] at h
  rw [←h.1,List.append_assoc]

end XmrigCC.DelimitedStream
