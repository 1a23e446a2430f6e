import Statuary.Correlation
import Statuary.Proofs.Naming.Tags
import Statuary.Proofs.Tag.Word

/-!
# The texts of steps

Steps become the texts of a program one by one (`Statuary.Correlation.statements`), so what is done
one after another is written one after another, and commands that come from elsewhere are lines of
their own. What a text says can be told from it if the names in it stand for themselves
(`Statuary.Correlation.IsPlain`).
-/

namespace Statuary

namespace Correlation

/-- **Every name of a statue stands for itself in commands.** -/
structure IsPlain (p : Correlation) : Prop where
  project : IsToken p.project
  model : IsToken p.tags.model
  root : IsToken p.tags.root
  allBones : IsToken p.tags.allBones
  boneType : IsToken p.types.bone
  rootType : IsToken p.types.root
  displayType : IsToken p.types.display
  internal : IsToken p.objectives.internal
  id : IsToken p.objectives.id

/-- The digits of the distance stand for themselves. -/
theorem isToken_reach (p : Correlation) : IsToken p.reach :=
  fun _ hc => isTokenChar_of_isBareChar (Tag.isBareChar_of_mem_plain hc)

section Statements

variable (p : Correlation)

theorem statements_append (ss ts : List Step) :
    p.statements (ss ++ ts) = p.statements ss ++ p.statements ts := by
  induction ss with
  | nil => rfl
  | cons s ss ih => rw [List.cons_append, statements, statements, ih, List.cons_append]

/-- Commands that come from elsewhere are written as they are. -/
theorem statements_run (commands : List String) :
    p.statements (commands.map fun c => .order (.run c)) = commands.map .line := by
  induction commands with
  | nil => rfl
  | cons c commands ih =>
    rw [List.map_cons, statements, ih, List.map_cons]
    rfl

/-- **The body of a function that summons a statue.** -/
theorem statements_summon (commands : List String) :
    p.statements (summon commands) =
      [.line (p.orderText .summonRoot), .block p.newRootHead
        (.line (p.orderText .mintId) :: (commands.map .line ++
          [.block p.newBonesHead [.line (p.orderText .takeId), .line (p.orderText .align),
            .line (p.orderText .dropNew)], .line (p.orderText .dropNew)]))] := by
  have hinner : p.statements (.order .mintId :: commands.map (fun c => .order (.run c)) ++
      [.asNewBones [.order .takeId, .order .align, .order .dropNew], .order .dropNew]) =
        .line (p.orderText .mintId) :: (commands.map .line ++
          [.block p.newBonesHead [.line (p.orderText .takeId), .line (p.orderText .align),
            .line (p.orderText .dropNew)], .line (p.orderText .dropNew)]) := by
    rw [List.cons_append, statements, statements_append, statements_run]
    rfl
  rw [← hinner]
  rfl

/-- **The body of a function that changes the variant of a statue.** -/
theorem statements_setVariant (variant : String) (commands : List String) :
    p.statements (setVariant variant commands) =
      [.branch p.rootCondition
        [.line (p.orderText .rememberId), .block p.rememberedHead (commands.map .line)]
        [.line (p.orderText (.usage ("set_variant/" ++ variant)))]] := by
  rw [← statements_run]
  rfl

end Statements

end Correlation

end Statuary
