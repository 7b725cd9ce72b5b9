import GraphicsPipeline.Main
import GraphicsPipeline.Proofs.Draw.Interpolation
import GraphicsPipeline.Proofs.Draw.Winding
import GraphicsPipeline.Proofs.Idempotence
import GraphicsPipeline.Proofs.InPlace
import GraphicsPipeline.Proofs.Interface.InPlace
import GraphicsPipeline.Proofs.Raster.Coverage
import GraphicsPipeline.Proofs.Raster.Depth
import GraphicsPipeline.Proofs.Raster.Reach
import GraphicsPipeline.Proofs.Shader.Canonical
import GraphicsPipeline.Proofs.Shader.Encoding
import GraphicsPipeline.Proofs.Vertex.Encoding
import GraphicsPipeline.Shader.Agreement
import GraphicsPipeline.Vertex.Extent
import GraphicsPipeline.Proofs.Vertex.Fetch
import GraphicsPipeline.Vertex.Worker
import GraphicsPipeline.Proofs.Vertex.Shading
import GraphicsPipeline.Image.Bytewise
import GraphicsPipeline.Proofs.Image.Clearing
import GraphicsPipeline.Proofs.Shader.Closing
import GraphicsPipeline.Proofs.Shader.Jobs
import GraphicsPipeline.Proofs.Shader.Views
import GraphicsPipeline.Proofs.Raster.Level
