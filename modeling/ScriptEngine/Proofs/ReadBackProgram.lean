import ScriptEngine.Proofs.ReadBackCompound

/-! # Reading back a program

Every node is read back from its canonical tokens exactly where `Node.reads` says so, by induction
over the tree with one lemma for each construct; a program is the lines of its root. -/

namespace ScriptEngine

open Parse Grammar Canonical Printer

mutual

theorem Node.exact (n : Node) : n.Exact := by
  match n with
  | .number pos value => exact Node.exact_number pos value
  | .text pos value => exact Node.exact_text pos value
  | .list pos items => exact Node.exact_list pos (nodes_exact items)
  | .binary pos op left right => exact Node.exact_binary pos op left.exact right.exact
  | .unary pos op operand => exact Node.exact_unary pos op operand.exact
  | .read pos name => exact Node.exact_read pos name
  | .this pos => exact Node.exact_this pos
  | .declare pos name value => exact Node.exact_declare pos name value.exact
  | .assign pos name value => exact Node.exact_assign pos name value.exact
  | .update pos name op value => exact Node.exact_update pos name op value.exact
  | .choose pos arms => exact Node.exact_choose pos arms.exact
  | .count pos name start stop step braced body =>
    exact Node.exact_count pos name braced start.exact stop.exact (option_exact step) body.exact
  | .each pos name items braced body => exact Node.exact_each pos name braced items.exact body.exact
  | .loop pos condition braced body => exact Node.exact_loop pos braced condition.exact body.exact
  | .function pos name params braced body =>
    exact Node.exact_function pos name params braced body.exact
  | .call pos callee args => exact Node.exact_call pos callee.exact (nodes_exact args)
  | .sequence pos statements => exact Node.exact_sequence pos (nodes_exact statements)
  | .members pos segments => exact Node.exact_members pos (nodes_exact segments)
  | .object pos name params parent body => exact Node.exact_object pos name params parent body.exact
  | .create pos name args => exact Node.exact_create pos name (nodes_exact args)
  | .return_ pos value => exact Node.exact_return pos (option_exact value)
  | .continue_ pos => exact Node.exact_continue pos
  | .break_ pos => exact Node.exact_break pos
  | .include_ pos paths => exact Node.exact_include pos (nodes_exact paths)

theorem Arms.exact (arms : Arms) : arms.AllExact := by
  match arms with
  | .done => exact trivial
  | .otherwise _ body => exact body.exact
  | .arm condition _ body more => exact ⟨condition.exact, body.exact, more.exact⟩

theorem nodes_exact (ns : List Node) : AllExact ns := by
  match ns with
  | [] => exact nofun
  | n :: ns => exact List.forall_mem_cons.mpr ⟨n.exact, nodes_exact ns⟩

theorem option_exact (n : Option Node) : ∀ m ∈ n, m.Exact := by
  match n with
  | none => exact nofun
  | some n => exact fun m hm => Option.mem_some.mp hm ▸ n.exact

end

/-- The canonical tokens of a program give the program exactly where it reads back. -/
theorem program_exact (pos : Position) (statements : List Node)
    (hreg : allRegular true statements) {k : Nat}
    (hk : (Node.sequence pos statements).programTokens.length ≤ k) :
    (∃ r, program (rules k) (bareStream (Node.sequence pos statements).programTokens) =
        .ok (Node.sequence pos statements).erase r) ↔
      (Node.sequence pos statements).readsBack = true := by
  match statements with
  | [] => exact ⟨fun _ => rfl, fun _ => ⟨bareStream [], rfl⟩⟩
  | n :: ns =>
    have htokens : (Node.sequence pos (n :: ns)).programTokens = n.tokens ++ (lineTokens ns ++ []) := by
      rw [List.append_nil]
      rfl
    rw [htokens] at hk
    have hrun := statements_exact (nodes_exact (n :: ns)) hreg Calm.nil (.inr rfl) hk
    have hlead := n.leads hreg.1
    have hfirst := firstKind_append hlead (lineTokens ns ++ [])
    have hline : firstKind (n.tokens ++ (lineTokens ns ++ [])) ≠ .newline := by
      rw [hfirst]
      exact (leads_ne hlead.firstKind.1).1
    have hend : ((bareStream (n.tokens ++ (lineTokens ns ++ []))).peek.kind == .endOfCode) =
        false := by
      rw [bareStream, peek_kind, hfirst]
      refine beq_false_of_ne fun h => ?_
      have hleads := hlead.firstKind.1
      rw [h] at hleads
      cases hleads
    have hprogram : program (rules k) (bareStream (n.tokens ++ (lineTokens ns ++ []))) =
        (Grammar.statements (rules k) >>= fun root => skipNewlines >>= fun _ =>
          check .endOfCode >>= fun ended => if ended then Parse.done root else unexpected)
            (bareStream (n.tokens ++ (lineTokens ns ++ []))) := by
      rw [program, bareStream, skip_bind hline, bind_of_ok (show Parse.peek
        ⟨n.tokens ++ (lineTokens ns ++ []), .none⟩ = .ok (bareStream (n.tokens ++
          (lineTokens ns ++ []))).peek ⟨n.tokens ++ (lineTokens ns ++ []), .none⟩ from rfl), hend]
      rfl
    rw [htokens, hprogram]
    constructor
    · rintro ⟨r, h⟩
      obtain ⟨root, r₁, hroot, h⟩ := bind_eq_ok h
      obtain ⟨_, r₂, _, h⟩ := bind_eq_ok h
      obtain ⟨ended, r₃, _, h⟩ := bind_eq_ok h
      cases ended with
      | false => cases h
      | true =>
        cases h
        exact ((hrun r₁).mp hroot).1
    · intro h
      refine ⟨bareStream [], ?_⟩
      rw [bind_of_ok ((hrun _).mpr ⟨h, rfl⟩)]
      rfl

end ScriptEngine
