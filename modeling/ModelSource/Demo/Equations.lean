import ModelSource.Demo.Script

/-!
# Demos made of equations

Four systems of ordinary differential equations: a decaying state, a damped
pendulum, two populations and a chaotic attractor.
-/

namespace ModelSource.Demo

/-- Exponential decay of a single state. -/
def linearOdeDocument : Except Error Document :=
  build
    { ident := "LinearODE"
      description := some "This is a linear ordinary differential equation" } do
    parameter "Real" "alpha"
      { value := some (.integer 1)
        modifications := .ofList [("min", .integer 0)]
        description := some "negative value results in blow up" }
    declare "Real" "x"
      { modifications := .ofList [("start", .integer 1), ("fixed", .bool true)] }
    equation "der(x)" "-alpha*x" { description := some "linear ODE" }

/-- A damped pendulum. -/
def nonlinearOdeDocument : Except Error Document :=
  build
    { ident := "NonlinearODE"
      description := some "This model represents the non-linear damped pendulum" } do
    importName "Modelica.Units.SI" .none
    parameter "SI.Acceleration" "g" { value := some (.real 9.81) }
    parameter "SI.Length" "l" { value := some (.integer 1) }
    parameter "Real" "d"
      { value := some (.integer 1), description := some "Friction coefficient" }
    declare "SI.Angle" "theta"
      { modifications := .ofList [("start", .integer 1), ("fixed", .bool true)] }
    declare "SI.AngularVelocity" "d_theta" {}
    change (.addComment ["The set of equations"] .line true .initialEquation)
    equation "der(theta)" "0" { initial := true }
    equation "der(d_theta) + d*d_theta + g/l * sin(theta)" "0" {}
    equation "der(theta)" "d_theta" {}

/-- Predator and prey populations. -/
def lotkaVolterraDocument : Except Error Document :=
  build
    { ident := "LotkaVolterra"
      description :=
        some "This model represents the Lotka-Volterra population dynamics system" } do
    each [("alpha", "2/3"), ("beta", "4/3"), ("gamma", "1"), ("delta", "1")]
      fun (ident, value) => parameter "Real" ident { value := some (.verbatim value) }
    declare "Real" "value"
      { modifications := .ofList
          [("start", .assign
              { Assign.ofScalar (.integer 1) with flags := FlagSet.ofList [.each] }),
           ("fixed", .bool true)]
        subscripts := ["2"] }
    equation "der(value)" "[alpha, -beta*value[1]; delta*value[2], -gamma] * value" {}
    Document.setExperiment { stop := 2000, interval := some 0.1 }

/-- The chaotic attractor of a convection model. -/
def lorenzDocument : Except Error Document :=
  build
    { ident := "LorenzAttractor"
      description := some "This model represents the chaotic Lorenz attractor" } do
    parameter "Real" "rho" { value := some (.integer 28) }
    parameter "Real" "sigma" { value := some (.integer 10) }
    parameter "Real" "beta" { value := some (.verbatim "8/3") }
    each [("x", "0"), ("y", "2"), ("z", "20")] fun (ident, start) => do
      declare "Real" ident {}
      equation ident start { initial := true }
    equation "der(x)" "sigma*(y-x)" {}
    equation "der(y)" "x*(rho-z)-y" {}
    equation "der(z)" "x*y - beta*z" {}
    Document.setExperiment { stop := 100, interval := some 0.01 }

end ModelSource.Demo
