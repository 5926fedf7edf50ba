/-!
# Surroundings

* `Surroundings`: the working directory and the environment variables of a run;
* `Surroundings.valueOf?`: the value of a variable that is set to something.
-/

namespace ApiSurface

/-- The working directory and the variables of a run. -/
structure Surroundings where
  here : String
  environment : List (String × String)

/-- The value of a variable, unless it is empty. -/
def Surroundings.valueOf? (s : Surroundings) (name : String) : Option String :=
  (s.environment.lookup name).filter fun v => !v.isEmpty

/-- The directory of the user, as the variables give it. -/
def Surroundings.home? (s : Surroundings) : Option String := s.environment.lookup "HOME"

end ApiSurface
