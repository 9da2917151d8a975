import Up2date.Cxx.Interactions
import Up2date.Ddi.Builders

/-!
# The event handler of the examples

`basic_handler.hpp`: a handler that answers every request of the server. It downloads all
artifacts of a deployment, one after the other, and reports a success; an exception of a download
ends it.
-/

namespace Up2date.Example

open Cxx Ddi

/-- `CancelActionFeedbackDeliveryListener` and `DeploymentBaseFeedbackDeliveryListener`, which
write to the console. -/
def feedbackDeliveryListener : ResponseDeliveryListener where
  onSuccessfulDelivery := pure ()
  onError := pure ()

/-- The data of `Handler::onConfigRequest`. -/
def configData : List (Str × Str) :=
  [("some".toList, "config1".toList), ("some1".toList, "new config".toList),
    ("some2".toList, "RITMS123".toList), ("some3".toList, "TES_TEST_TEST".toList)]

/-- `Handler::onConfigRequest` -/
def onConfigRequest : UserCode (Option ConfigResponse) :=
  return some (ConfigResponseBuilder.newInstance.addAll configData).setIgnoreSleep.build

/-- What the handler does with one artifact. -/
def installArtifact (builder : ResponseBuilderImpl) (artifact : Artifact) :
    UserCode ResponseBuilderImpl := do
  let builder := builder.addDetail (artifact.filename ++ " described. Starting download ...".toList)
  let _ ← Interaction.invoke (.download artifact.downloadURI (.downloadTo artifact.filename))
  return builder.addDetail ("Downloaded ".toList ++ artifact.filename)

/-- Every artifact of a chunk is downloaded and installed, and reported. -/
def installChunk (builder : ResponseBuilderImpl) (chunk : Chunk) : UserCode ResponseBuilderImpl :=
  chunk.artifacts.foldlM installArtifact builder

/-- The end of `Handler::onDeploymentAction`. -/
def completed (builder : ResponseBuilderImpl) : Option Response :=
  (((((builder.addDetail "Work done. Sending response".toList).setIgnoreSleep).setExecution
    .closed).setFinished .success).setResponseDeliveryListener feedbackDeliveryListener).build

/-- `Handler::onDeploymentAction` -/
def onDeploymentAction (dp : DeploymentBase) : UserCode (Option Response) := do
  let builder := ResponseBuilder.newInstance.addDetail "Printed deployment base info".toList
  let builder ← dp.chunks.foldlM installChunk builder
  return completed builder

/-- `Handler::onCancelAction` -/
def onCancelAction : UserCode (Option Response) :=
  return (((((ResponseBuilder.newInstance.setExecution .closed).setFinished .success).addDetail
    "Some feedback".toList).addDetail "One more feedback".toList).addDetail
    "Really important feedback".toList).setResponseDeliveryListener
    feedbackDeliveryListener |>.setIgnoreSleep.build

/-- `Handler` -/
def basicHandler : EventHandler where
  onConfigRequest _ := onConfigRequest
  onCancelAction _ _ := onCancelAction
  onDeploymentAction _ dp := onDeploymentAction dp
  onNoActions _ := pure ()

/-! ### Its calls -/

/-- A download of an artifact. -/
def IsDownload : UserCall → Prop
  | .download _ _ => True
  | _ => False

/-- A deployment makes downloads only. -/
theorem onDeploymentAction_makes (dp : DeploymentBase) : (onDeploymentAction dp).Makes IsDownload := by
  have hartifact : ∀ b a, (installArtifact b a).Makes IsDownload := fun b a =>
    (Interaction.Makes.invoke trivial).bind fun _ => .pure _
  have hchunk : ∀ b c, (installChunk b c).Makes IsDownload := fun b c =>
    Interaction.Makes.foldlM hartifact c.artifacts b
  exact (Interaction.Makes.foldlM hchunk dp.chunks _).bind fun b => .pure _

end Up2date.Example
