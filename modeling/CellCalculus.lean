import CellCalculus.Main
import CellCalculus.Proofs.InferenceGuarantees
import CellCalculus.Proofs.PremiseGuarantees
import CellCalculus.Proofs.InferenceSoundness
import CellCalculus.Proofs.StepUnderFrame
import CellCalculus.Proofs.CountedRuns
import CellCalculus.Proofs.Reducibility
import CellCalculus.Proofs.AcceptedPrograms
import CellCalculus.Proofs.SelfNameCapture
import CellCalculus.Proofs.NaturalSemantics
import CellCalculus.Proofs.TagHomogeneity
import CellCalculus.Proofs.WellFormedInference
import CellCalculus.Proofs.InferenceCompleteness
import CellCalculus.Proofs.UniqueDecomposition
import CellCalculus.Proofs.LeftoverPremises
import CellCalculus.Proofs.EnvironmentNumbering
import CellCalculus.Proofs.OperandOrder
import CellCalculus.Proofs.HeapHistory
import CellCalculus.Proofs.AddressIndependence
import CellCalculus.Proofs.AlphaRuns
import CellCalculus.Proofs.MachineRuns
import CellCalculus.Proofs.UntaggedRuns
import CellCalculus.Proofs.ReferenceErasure
import CellCalculus.Proofs.SuccessiveChecks
import CellCalculus.Proofs.MostGeneralUnifier
import CellCalculus.Proofs.FieldInstances
import CellCalculus.Proofs.BlamedExpressions
import CellCalculus.Proofs.TypeTexts
import CellCalculus.Proofs.AdministrativeSteps
import CellCalculus.Proofs.HaltedMachines
import CellCalculus.Proofs.IntegerArithmetic
import CellCalculus.Proofs.SampleRuns
import CellCalculus.Proofs.ErrorSites
import CellCalculus.Proofs.SettlingLoop
import CellCalculus.Proofs.SettlingLoop
