namespace Sift.Text

/-! Names are matched without regard to the case of ASCII letters. -/

def fold (name : String) : String :=
  String.ofList (name.toList.map Char.toLower)

def SameName (first second : String) : Prop :=
  fold first = fold second

instance (first second : String) : Decidable (SameName first second) :=
  inferInstanceAs (Decidable (fold first = fold second))

theorem SameName.refl (name : String) : SameName name name := rfl

theorem SameName.symm {first second : String} (h : SameName first second) :
    SameName second first := Eq.symm h

theorem SameName.trans {first second third : String}
    (hfirst : SameName first second) (hsecond : SameName second third) :
    SameName first third := Eq.trans hfirst hsecond

end Sift.Text
